import Xxlib.Lib.Signals
import Mathlib.Data.List.Infix

/-! `UvAsync` of `test_uv_3/xx_uv.h`: any thread dispatches an action, the loop thread runs one at each wake-up.

`Dispatch` is two steps, the push under the mutex and `uv_async_send`, and so is `Execute`, whose action may
dispatch further ones. libuv may merge a send into a wake-up that it has not delivered yet.
-/

set_option autoImplicit false

namespace Xxlib.Uv3

open Lib

namespace Async

/-- Where the loop thread is in `Execute`. -/
inductive Loop (α : Type) where
  | idle
  | woken
  | taken (action : α)
  | running

/-- Threads are `T` and the loop thread, which is `none`. -/
inductive Event (T α : Type) where
  | push (thread : Option T) (action : α)
  | send (thread : Option T) (merged : Bool)
  | wake
  | take
  | call
  | finish

/-- A `uv_async_send` that brings no wake-up of its own. -/
def Event.merges {T α : Type} : Event T α → Bool
  | .send _ merged => merged
  | _ => false

end Async

/-- `pushed` and `ran` are the actions so far, in the order in which they were dispatched and called. -/
structure UvAsync (T α : Type) where
  actions : List α := []
  signals : Signals (Option T) := {}
  loop : Async.Loop α := .idle
  pushed : List α := []
  ran : List α := []

namespace UvAsync

open Async

variable {T α : Type} [DecidableEq T]

/-- The loop thread dispatches only out of an action. -/
def MayDispatch (s : UvAsync T α) (thread : Option T) : Bool :=
  match thread, s.loop with
  | some _, _ => true
  | none, .running => true
  | none, _ => false

def push (thread : Option T) (action : α) (s : UvAsync T α) : Option (UvAsync T α) :=
  if s.MayDispatch thread then
    (s.signals.owe thread).map fun signals =>
      { s with actions := s.actions ++ [action], signals, pushed := s.pushed ++ [action] }
  else none

def send (thread : Option T) (merged : Bool) (s : UvAsync T α) : Option (UvAsync T α) :=
  (s.signals.send thread merged).map fun signals => { s with signals }

def wake (s : UvAsync T α) : Option (UvAsync T α) :=
  match s.loop with
  | .idle => s.signals.deliver.map fun signals => { s with signals, loop := .woken }
  | _ => none

/-- The front of an empty queue is not defined. -/
def take (s : UvAsync T α) : Option (UvAsync T α) :=
  match s.loop, s.actions with
  | .woken, action :: actions => some { s with loop := .taken action, actions }
  | _, _ => none

def call (s : UvAsync T α) : Option (UvAsync T α) :=
  match s.loop with
  | .taken action => some { s with loop := .running, ran := s.ran ++ [action] }
  | _ => none

/-- The action returns, with all that it dispatches sent. -/
def finish (s : UvAsync T α) : Option (UvAsync T α) :=
  match s.loop with
  | .running => if none ∈ s.signals.owing then none else some { s with loop := .idle }
  | _ => none

def step (s : UvAsync T α) : Event T α → Option (UvAsync T α)
  | .push thread action => s.push thread action
  | .send thread merged => s.send thread merged
  | .wake => s.wake
  | .take => s.take
  | .call => s.call
  | .finish => s.finish

/-- The states that the events lead to from a new `UvAsync`. -/
inductive Run : List (Event T α) → UvAsync T α → Prop where
  | start : Run [] {}
  | next {events : List (Event T α)} {s s' : UvAsync T α} (event : Event T α) (before : Run events s)
      (runs : s.step event = some s') : Run (events ++ [event]) s'

/-- No wake-up is pending or waits for its action to be called, and no thread is between its push and its send. -/
def Settled (s : UvAsync T α) : Prop :=
  s.signals.Quiet ∧ match s.loop with
    | .idle | .running => True
    | .woken | .taken _ => False

/-! ## What each step keeps -/

/-- The action that is taken but not called yet. -/
def held (s : UvAsync T α) : List α :=
  match s.loop with
  | .taken action => [action]
  | _ => []

/-- The wake-up that is delivered but has taken no action yet. -/
def delivered (s : UvAsync T α) : Nat :=
  match s.loop with
  | .woken => 1
  | _ => 0

/-- Each action in the queue has its own wake-up to come, up to those that were merged. -/
structure Accounts (merged : Nat) (s : UvAsync T α) : Prop where
  order : s.pushed = s.ran ++ s.held ++ s.actions
  count : s.actions.length = s.signals.outstanding + s.delivered + merged

section
variable {s s' : UvAsync T α} {merged : Nat}

theorem Accounts.push {thread : Option T} {action : α} (accounts : Accounts merged s)
    (runs : s.push thread action = some s') : Accounts merged s' := by
  unfold UvAsync.push at runs
  split at runs
  · obtain ⟨signals, owes, rfl⟩ := Option.map_eq_some_iff.mp runs
    have more := Signals.owe_outstanding owes
    constructor
    · simp only [accounts.order, List.append_assoc]
      rfl
    · have count := accounts.count
      simp only [List.length_append, List.length_singleton, delivered] at count ⊢
      omega
  · cases runs

theorem Accounts.send {thread : Option T} {merge : Bool} (accounts : Accounts merged s)
    (runs : s.send thread merge = some s') : Accounts (merged + merge.toNat) s' := by
  unfold UvAsync.send at runs
  obtain ⟨signals, sends, rfl⟩ := Option.map_eq_some_iff.mp runs
  have less := (Signals.send_outstanding sends).1
  constructor
  · exact accounts.order
  · have count := accounts.count
    simp only [delivered] at count ⊢
    omega

omit [DecidableEq T] in
theorem Accounts.wake (accounts : Accounts merged s) (runs : s.wake = some s') : Accounts merged s' := by
  unfold UvAsync.wake at runs
  cases loop : s.loop with
  | idle =>
    rw [loop] at runs
    obtain ⟨signals, delivers, rfl⟩ := Option.map_eq_some_iff.mp runs
    have less := Signals.deliver_outstanding delivers
    constructor
    · simpa [held, loop] using accounts.order
    · have count := accounts.count
      simp only [delivered, loop] at count ⊢
      omega
  | _ =>
    rw [loop] at runs
    cases runs

omit [DecidableEq T] in
theorem Accounts.take (accounts : Accounts merged s) (runs : s.take = some s') : Accounts merged s' := by
  unfold UvAsync.take at runs
  split at runs
  next action actions loop queue =>
    cases runs
    constructor
    · simpa [held, loop, queue] using accounts.order
    · have count := accounts.count
      simp only [delivered, loop, queue, List.length_cons] at count ⊢
      omega
  next => cases runs

omit [DecidableEq T] in
theorem Accounts.call (accounts : Accounts merged s) (runs : s.call = some s') : Accounts merged s' := by
  unfold UvAsync.call at runs
  split at runs
  next action loop =>
    cases runs
    constructor
    · simpa [held, loop] using accounts.order
    · simpa [delivered, loop] using accounts.count
  next => cases runs

theorem Accounts.finish (accounts : Accounts merged s) (runs : s.finish = some s') : Accounts merged s' := by
  unfold UvAsync.finish at runs
  split at runs
  next loop =>
    split at runs
    · cases runs
    · cases runs
      constructor
      · simpa [held, loop] using accounts.order
      · simpa [delivered, loop] using accounts.count
  next => cases runs

theorem Accounts.step (accounts : Accounts merged s) {event : Event T α} (runs : s.step event = some s') :
    Accounts (merged + event.merges.toNat) s' := by
  cases event with
  | push thread action => exact accounts.push runs
  | send thread merge => exact accounts.send runs
  | wake => exact accounts.wake runs
  | take => exact accounts.take runs
  | call => exact accounts.call runs
  | finish => exact accounts.finish runs

end

/-! ## Whole runs -/

section
variable {events : List (Event T α)} {s : UvAsync T α}

theorem Run.accounts (run : Run events s) : Accounts (events.countP Event.merges) s := by
  induction run with
  | start => exact ⟨rfl, rfl⟩
  | next event before runs accounts =>
    have kept := accounts.step runs
    rw [List.countP_append, List.countP_singleton]
    cases merges : event.merges with
    | false => simpa [merges] using kept
    | true => simpa [merges] using kept

/-- A wake-up always finds an action, and actions are called once each in the order of their pushes. In a
settled state none is left over exactly if no send of the run was merged. -/
theorem settled_empty_iff (run : Run events s) :
    (s.delivered = 1 → s.actions ≠ []) ∧ s.ran <+: s.pushed ∧
      (s.Settled → (s.actions = [] ∧ s.ran = s.pushed ↔ ∀ event ∈ events, event.merges = false)) := by
  have accounts := run.accounts
  have order := accounts.order
  have count := accounts.count
  refine ⟨fun woken none => ?_, ⟨s.held ++ s.actions, by rw [order, List.append_assoc]⟩, fun settled => ?_⟩
  · rw [none, List.length_nil] at count
    omega
  · obtain ⟨quiet, loop⟩ := settled
    have nothing : s.held = [] ∧ s.delivered = 0 := by
      unfold held delivered
      cases which : s.loop with
      | idle => exact ⟨rfl, rfl⟩
      | running => exact ⟨rfl, rfl⟩
      | woken => rw [which] at loop; exact loop.elim
      | taken action => rw [which] at loop; exact loop.elim
    rw [Signals.quiet_iff_outstanding.mp quiet, nothing.2] at count
    rw [nothing.1, List.append_nil] at order
    rw [order, List.self_eq_append_right, and_self, ← List.length_eq_zero_iff, count, Nat.zero_add, List.countP_eq_zero]
    simp only [Bool.not_eq_true]

/-- Two threads, and a wake-up for each of them. -/
theorem settled_empty_two : ∃ s : UvAsync Bool Nat, s.Settled ∧ s.actions = [] ∧ s.ran = [7, 9] := by
  have started : Run [] ({} : UvAsync Bool Nat) := .start
  have pushed := (started.next (.push (some true) 7) rfl).next (.push (some false) 9) rfl
  have sent := (pushed.next (.send (some false) false) rfl).next (.send (some true) false) rfl
  have first := (((sent.next .wake rfl).next .take rfl).next .call rfl).next .finish rfl
  have second := (((first.next .wake rfl).next .take rfl).next .call rfl).next .finish rfl
  have empty := ((settled_empty_iff second).2.2 ⟨by decide, trivial⟩).mpr (by decide)
  exact ⟨_, ⟨by decide, trivial⟩, empty⟩

end

/-- The second of two sends is merged into the first, and its action is left in the queue. -/
theorem merged_send_leaves_action :
    ¬ ∀ (events : List (Event Bool Nat)) (s : UvAsync Bool Nat), Run events s → s.Settled → s.actions = [] := by
  intro always
  have started : Run [] ({} : UvAsync Bool Nat) := .start
  have pushed := (started.next (.push (some true) 7) rfl).next (.push (some false) 9) rfl
  have sent := (pushed.next (.send (some true) false) rfl).next (.send (some false) true) rfl
  have ended := (((sent.next .wake rfl).next .take rfl).next .call rfl).next .finish rfl
  have empty := always _ _ ended ⟨by decide, trivial⟩
  cases empty

end UvAsync

end Xxlib.Uv3
