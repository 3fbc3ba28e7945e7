import Xxlib.Lib.Signals
import Xxlib.Uv4.Queue

/-! `UvAsync` of `test_uv_4/xx_uv.cpp`: any thread dispatches an action, the loop thread runs all of them at a
wake-up.

`Dispatch` is two steps, the push under the mutex and `uv_async_send`. `OnFireImpl` is a step for each `TryPop`
and for each action, which may dispatch further ones. libuv may merge a send into a wake-up that it has not
delivered yet.
-/

set_option autoImplicit false

namespace Xxlib.Uv4

open Lib

namespace Async

/-- What `sizeof(std::function<void()>)` can be. -/
structure FunctionSize where
  sizeof : Nat
  positive : 0 < sizeof
  fits : Queue.Fits sizeof 8

/-- Four words of 64 bits. -/
def FunctionSize.fourWords : FunctionSize := ⟨32, by decide, by decide⟩

/-- Where the loop thread is in `OnFireImpl`. -/
inductive Loop (α : Type) where
  | idle
  | firing
  | popped (a : α)
  | running

/-- Threads are `T` and the loop thread, which is `none`. The block is what a queue that grows gets. -/
inductive Event (T α : Type) where
  | push (thread : Option T) (a : α) (block : Nat → α)
  | send (thread : Option T) (merged : Bool)
  | onAsyncCB
  | tryPop
  | call
  | finish

end Async

/-- `pushed` and `ran` are the actions so far, in the order in which they were dispatched and called. -/
structure UvAsync (T α : Type) where
  actions : Queue α
  signals : Signals (Option T) := {}
  loop : Async.Loop α := .idle
  pushed : List α := []
  ran : List α := []

namespace UvAsync

open Async

variable {T α : Type}

/-- The constructor, which also binds `OnFire` to `OnFireImpl`. -/
def create (size : FunctionSize) (block : Nat → α) : UvAsync T α := { actions := Queue.create size.sizeof 8 block }

/-- The loop thread dispatches only out of an action. -/
def MayDispatch (s : UvAsync T α) (thread : Option T) : Bool :=
  match thread, s.loop with
  | some _, _ => true
  | none, .running => true
  | none, _ => false

def onAsyncCB (s : UvAsync T α) : Option (UvAsync T α) :=
  match s.loop with
  | .idle => s.signals.deliver.map fun signals => { s with signals, loop := .firing }
  | _ => none

/-- An empty queue ends `OnFireImpl`. -/
def tryPop (s : UvAsync T α) : Option (UvAsync T α) :=
  match s.loop, s.actions.tryPop with
  | .firing, (some a, actions) => some { s with actions, loop := .popped a }
  | .firing, (none, actions) => some { s with actions, loop := .idle }
  | _, _ => none

def call (s : UvAsync T α) : Option (UvAsync T α) :=
  match s.loop with
  | .popped a => some { s with loop := .running, ran := s.ran ++ [a] }
  | _ => none

section
variable [DecidableEq T]

def push (size : FunctionSize) (thread : Option T) (a : α) (block : Nat → α) (s : UvAsync T α) :
    Option (UvAsync T α) :=
  if s.MayDispatch thread then
    match s.signals.owe thread, s.actions.emplace size.sizeof block a with
    | some signals, some (_, actions) => some { s with actions, signals, pushed := s.pushed ++ [a] }
    | _, _ => none
  else none

def send (thread : Option T) (merged : Bool) (s : UvAsync T α) : Option (UvAsync T α) :=
  (s.signals.send thread merged).map fun signals => { s with signals }

/-- The action returns, with all that it dispatched sent. -/
def finish (s : UvAsync T α) : Option (UvAsync T α) :=
  match s.loop with
  | .running => if none ∈ s.signals.owing then none else some { s with loop := .firing }
  | _ => none

def step (size : FunctionSize) (s : UvAsync T α) : Event T α → Option (UvAsync T α)
  | .push thread a block => s.push size thread a block
  | .send thread merged => s.send thread merged
  | .onAsyncCB => s.onAsyncCB
  | .tryPop => s.tryPop
  | .call => s.call
  | .finish => s.finish

/-- The states that a new `UvAsync` gets into. -/
inductive Run (size : FunctionSize) : UvAsync T α → Prop where
  | create (block : Nat → α) : Run size (create size block)
  | next {s s' : UvAsync T α} (event : Event T α) (before : Run size s) (runs : s.step size event = some s') :
      Run size s'

end

/-- No wake-up is pending, `OnFireImpl` is not running and no thread is between its push and its send. -/
def Settled (s : UvAsync T α) : Prop :=
  s.signals.Quiet ∧ match s.loop with
    | .idle => True
    | .firing | .popped _ | .running => False

/-! ## What each step keeps -/

/-- The action that is popped but not called yet. -/
def held (s : UvAsync T α) : List α :=
  match s.loop with
  | .popped a => [a]
  | _ => []

/-- The queue holds the rest of the actions, and while it holds some, it will be looked at again. -/
structure Accounts (size : FunctionSize) (s : UvAsync T α) (waiting : List α) : Prop where
  represents : s.actions.Represents waiting
  fits : Queue.Fits size.sizeof s.actions.bufLen
  order : s.pushed = s.ran ++ s.held ++ waiting
  noticed : s.Settled → waiting = []

section
variable {size : FunctionSize} {s s' : UvAsync T α} {waiting : List α}

theorem Accounts.create (block : Nat → α) : Accounts size (UvAsync.create (T := T) size block) [] := by
  have enough := size.fits.queueLen size.positive
  have some : 0 < (Queue.create size.sizeof 8 block).bufLen := by
    show 0 < queueLen size.sizeof 8
    omega
  exact ⟨⟨some, some, (Lib.Ring.slot_zero some).symm, rfl⟩, size.fits.queueLen_fits, rfl, fun _ => rfl⟩

theorem Accounts.onAsyncCB (accounts : Accounts size s waiting) (runs : s.onAsyncCB = some s') :
    Accounts size s' waiting := by
  unfold UvAsync.onAsyncCB at runs
  split at runs
  next loop =>
    obtain ⟨signals, -, rfl⟩ := Option.map_eq_some_iff.mp runs
    refine ⟨accounts.represents, accounts.fits, ?_, fun settled => settled.2.elim⟩
    simpa [held, loop] using accounts.order
  next => cases runs

theorem Accounts.tryPop (accounts : Accounts size s waiting) (runs : s.tryPop = some s') :
    ∃ waiting', Accounts size s' waiting' := by
  obtain ⟨answer, rest⟩ := accounts.represents.tryPop
  have length : s.actions.tryPop.2.bufLen = s.actions.bufLen := by
    unfold Queue.tryPop
    split <;> rfl
  unfold UvAsync.tryPop at runs
  refine ⟨waiting.tail, ?_⟩
  split at runs
  next a actions loop popped =>
    cases runs
    rw [popped] at answer rest length
    refine ⟨rest, length ▸ accounts.fits, ?_, fun settled => settled.2.elim⟩
    obtain ⟨tail, rfl⟩ := List.head?_eq_some_iff.mp answer.symm
    simpa [held, loop] using accounts.order
  next actions loop popped =>
    cases runs
    rw [popped] at answer rest length
    obtain rfl := List.head?_eq_none_iff.mp answer.symm
    refine ⟨rest, length ▸ accounts.fits, ?_, fun _ => rfl⟩
    simpa [held, loop] using accounts.order
  next => cases runs

theorem Accounts.call (accounts : Accounts size s waiting) (runs : s.call = some s') :
    Accounts size s' waiting := by
  unfold UvAsync.call at runs
  split at runs
  next a loop =>
    cases runs
    refine ⟨accounts.represents, accounts.fits, ?_, fun settled => settled.2.elim⟩
    simpa [held, loop] using accounts.order
  next => cases runs

variable [DecidableEq T]

theorem Accounts.push (accounts : Accounts size s waiting) {thread : Option T} {a : α} {block : Nat → α}
    (runs : s.push size thread a block = some s') : Accounts size s' (waiting ++ [a]) := by
  unfold UvAsync.push at runs
  split at runs
  · split at runs
    next signals idx actions owes emplaced =>
      cases runs
      obtain ⟨represents, fits⟩ := accounts.represents.emplaced size.positive accounts.fits emplaced
      refine ⟨represents, fits, ?_, fun settled => ?_⟩
      · simp only [accounts.order, List.append_assoc]
        rfl
      · have more := Signals.owe_outstanding owes
        have none := Signals.quiet_iff_outstanding.mp settled.1
        simp only at none
        omega
    next => cases runs
  · cases runs

theorem Accounts.send (accounts : Accounts size s waiting) {thread : Option T} {merged : Bool}
    (runs : s.send thread merged = some s') : Accounts size s' waiting := by
  unfold UvAsync.send at runs
  obtain ⟨signals, sends, rfl⟩ := Option.map_eq_some_iff.mp runs
  refine ⟨accounts.represents, accounts.fits, accounts.order, fun settled => ?_⟩
  -- behind a send there is always a wake-up to come
  have some := (Signals.send_outstanding sends).2
  have none := Signals.quiet_iff_outstanding.mp settled.1
  simp only at none
  omega

theorem Accounts.finish (accounts : Accounts size s waiting) (runs : s.finish = some s') :
    Accounts size s' waiting := by
  unfold UvAsync.finish at runs
  split at runs
  next loop =>
    split at runs
    · cases runs
    · cases runs
      refine ⟨accounts.represents, accounts.fits, ?_, fun settled => settled.2.elim⟩
      simpa [held, loop] using accounts.order
  next => cases runs

theorem Accounts.step (accounts : Accounts size s waiting) {event : Event T α} (runs : s.step size event = some s') :
    ∃ waiting', Accounts size s' waiting' := by
  cases event with
  | push thread a block => exact ⟨_, accounts.push runs⟩
  | send thread merged => exact ⟨_, accounts.send runs⟩
  | onAsyncCB => exact ⟨_, accounts.onAsyncCB runs⟩
  | tryPop => exact accounts.tryPop runs
  | call => exact ⟨_, accounts.call runs⟩
  | finish => exact ⟨_, accounts.finish runs⟩

/-! ## Whole runs -/

theorem Run.accounts (run : Run size s) : ∃ waiting, Accounts size s waiting := by
  induction run with
  | create block => exact ⟨_, .create block⟩
  | next event before runs accounts =>
    obtain ⟨waiting, accounts⟩ := accounts
    exact accounts.step runs

/-- Actions are called once each, in the order of their pushes, and in a settled state all of them. -/
theorem dispatched_called (run : Run size s) : s.ran <+: s.pushed ∧ (s.Settled → s.ran = s.pushed) := by
  obtain ⟨waiting, accounts⟩ := run.accounts
  have order := accounts.order
  refine ⟨⟨s.held ++ waiting, by rw [order, List.append_assoc]⟩, fun settled => ?_⟩
  have nothing : s.held = [] := by
    unfold held
    obtain ⟨-, loop⟩ := settled
    cases which : s.loop with
    | idle => rfl
    | firing => rfl
    | running => rfl
    | popped a => rw [which] at loop; exact loop.elim
  rw [order, accounts.noticed settled, nothing, List.append_nil, List.append_nil]

end

/-- A merged send, and an action that dispatches another one to the same loop. -/
theorem dispatched_called_merged : ∃ s : UvAsync Bool Nat, s.Settled ∧ s.ran = s.pushed ∧ s.pushed = [7, 9, 4] := by
  have started : Run .fourWords (create .fourWords (T := Bool) fun _ => 0) := .create _
  have first := started.next (.push (some true) 7 fun _ => 0) rfl
  have pushed := first.next (.push (some false) 9 fun _ => 0) rfl
  have sent := (pushed.next (.send (some true) false) rfl).next (.send (some false) true) rfl
  have called := ((sent.next .onAsyncCB rfl).next .tryPop rfl).next .call rfl
  have further := called.next (.push none 4 fun _ => 0) rfl
  have returned := (further.next (.send none false) rfl).next .finish rfl
  have second := ((returned.next .tryPop rfl).next .call rfl).next .finish rfl
  have third := ((second.next .tryPop rfl).next .call rfl).next .finish rfl
  have ended := ((third.next .tryPop rfl).next .onAsyncCB rfl).next .tryPop rfl
  exact ⟨_, ⟨by decide, trivial⟩, (dispatched_called ended).2 ⟨by decide, trivial⟩, rfl⟩

end UvAsync

end Xxlib.Uv4
