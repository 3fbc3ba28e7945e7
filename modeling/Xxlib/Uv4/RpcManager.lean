import Mathlib.Data.List.Nodup
import Mathlib.Logic.Function.Basic
import Xxlib.Lib.Bytes
import Xxlib.Lib.Growing

/-! Requests that wait for an answer or for their time: `UvRpcManager` (`xx_uv.cpp`).

The callbacks that wait are found by their serial. A queue holds the serials with the ticks they
wait for, in the order of registration; a serial that was answered stays in it. `Process` and
`Callback` hand a callback out to be called, and a callback may make further calls.
-/

set_option autoImplicit false

namespace Xxlib.Uv4

open Lib

/-- The fields, for callbacks of any type. While a callback that `Process` has called runs, `calling` holds. -/
structure RpcManager (C : Type) where
  serial : Nat
  mapping : Nat → Option C
  serials : List (Int × Nat)
  defaultInterval : Int
  ticks : Int
  calling : Bool

namespace RpcManager

variable {C : Type}

def create (defaultInterval : Int) : RpcManager C where
  serial := 0
  mapping := fun _ => none
  serials := []
  defaultInterval := defaultInterval
  ticks := 0
  calling := false

/-- The loop of `Process`, for the entries of the queue: it pops until a callback is to be called. -/
def drain (m : RpcManager C) : List (Int × Nat) → RpcManager C × Option C
  | [] => ({ m with serials := [], calling := false }, none)
  | (deadline, serial) :: rest =>
      if deadline ≤ m.ticks then
        match m.mapping serial with
        | some cb =>
            ({ m with
              mapping := Function.update m.mapping serial none
              serials := (deadline, serial) :: rest
              calling := true }, some cb)
        | none => m.drain rest
      else ({ m with serials := (deadline, serial) :: rest, calling := false }, none)

/-- `Process`, up to the first callback that it calls. -/
def process (m : RpcManager C) : RpcManager C × Option C :=
  let m := { m with ticks := toInt32 (m.ticks + 1) }
  m.drain m.serials

/-- `Process`, from the return of a callback up to the next one. -/
def returned (m : RpcManager C) : RpcManager C × Option C := m.drain m.serials.tail

def chosen (m : RpcManager C) (interval : Int) : Int := if interval = 0 then m.defaultInterval else interval

def register (m : RpcManager C) (cb : C) (interval : Int) : RpcManager C × Nat :=
  let serial := (m.serial + 1) % 2 ^ 32
  ({ m with
    serial := serial
    mapping := Function.update m.mapping serial (some cb)
    serials := m.serials ++ [(toInt32 (m.ticks + m.chosen interval), serial)] }, serial)

def unregister (m : RpcManager C) (serial : Nat) : RpcManager C :=
  { m with mapping := Function.update m.mapping serial none }

/-- `Callback`, with the callback that it calls. -/
def callback (m : RpcManager C) (serial : Nat) : RpcManager C × Option C :=
  match m.mapping serial with
  | none => (m, none)
  | some cb => ({ m with mapping := Function.update m.mapping serial none }, some cb)

/-- The loop of `Process` takes out the callback of the entry that it stops at, if it hands one out. -/
theorem drain_cases (m : RpcManager C) (queue : List (Int × Nat)) :
    (∃ m', m.drain queue = (m', none) ∧ m'.mapping = m.mapping ∧ m'.serial = m.serial) ∨
      ∃ m' serial cb, m.drain queue = (m', some cb) ∧ m.mapping serial = some cb ∧
        m'.mapping = Function.update m.mapping serial none ∧ m'.serial = m.serial ∧
        m'.serials.head?.map Prod.snd = some serial := by
  induction queue with
  | nil => exact .inl ⟨_, rfl, rfl, rfl⟩
  | cons entry rest ih =>
    obtain ⟨deadline, serial⟩ := entry
    rw [drain]
    split
    next =>
      cases found : m.mapping serial with
      | none => exact ih
      | some cb => exact .inr ⟨_, serial, cb, rfl, found, rfl, rfl, rfl⟩
    next => exact .inl ⟨_, rfl, rfl, rfl⟩

end RpcManager

/-! ## Runs

The callbacks are numbered in the order of their registration.
-/

/-- A registration: the serial it was given, and the tick it waits for. -/
structure Request where
  serial : Nat
  due : Int
  deriving DecidableEq

/-- A call of a callback, in `Process` or in `Callback`. -/
structure Call (B : Type) where
  request : Nat
  argument : Option B
  tick : Int
  timeout : Bool
  deriving DecidableEq

structure RpcRun (B : Type) where
  manager : RpcManager Nat
  requests : List Request
  calls : List (Call B)
  unregistered : List Nat

namespace RpcRun

variable {B : Type}

inductive Act (B : Type) where
  | register (interval : Int)
  | callback (serial : Nat) (bb : Option B)
  | unregister (serial : Nat)
  | process
  | returned

/-- What `Process` hands out is called with a null pointer. -/
def timedOut (s : RpcRun B) (result : RpcManager Nat × Option Nat) : RpcRun B :=
  { s with
    manager := result.1
    calls := s.calls ++ (result.2.map fun n => ⟨n, none, result.1.ticks, true⟩).toList }

def step (s : RpcRun B) : Act B → RpcRun B
  | .register interval =>
      let (manager, serial) := s.manager.register s.requests.length interval
      { s with
        manager := manager
        requests := s.requests ++ [⟨serial, s.manager.ticks + s.manager.chosen interval⟩] }
  | .callback serial bb =>
      let (manager, cb) := s.manager.callback serial
      { s with
        manager := manager
        calls := s.calls ++ (cb.map fun n => ⟨n, bb, manager.ticks, false⟩).toList }
  | .unregister serial =>
      { s with
        manager := s.manager.unregister serial
        unregistered := s.unregistered ++ (s.manager.mapping serial).toList }
  | .process => s.timedOut s.manager.process
  | .returned => s.timedOut s.manager.returned

/-- A callback of `Process` may make all calls but that of `Process`. -/
def Allowed (s : RpcRun B) : Act B → Prop
  | .register interval => 0 ≤ interval
  | .process => s.manager.calling = false
  | .returned => s.manager.calling = true
  | _ => True

/-- A request does not wait for less than those before it that are still queued, and the counters do not
overflow. -/
def Orderly (s : RpcRun B) : Act B → Prop
  | .register interval =>
      (∀ entry ∈ s.manager.serials, entry.1 ≤ s.manager.ticks + s.manager.chosen interval) ∧
        s.manager.serial + 1 < 2 ^ 32 ∧ s.manager.ticks + s.manager.chosen interval < 2 ^ 31
  | .process => s.manager.ticks + 1 < 2 ^ 31
  | _ => True

instance (s : RpcRun B) : (act : Act B) → Decidable (s.Allowed act)
  | .register _ => inferInstanceAs (Decidable (_ ≤ _))
  | .process | .returned => inferInstanceAs (Decidable (_ = _))
  | .callback _ _ | .unregister _ => inferInstanceAs (Decidable True)

instance (s : RpcRun B) : (act : Act B) → Decidable (s.Orderly act)
  | .register _ => inferInstanceAs (Decidable (_ ∧ _))
  | .process => inferInstanceAs (Decidable (_ < _))
  | .callback _ _ | .unregister _ | .returned => inferInstanceAs (Decidable True)

def fresh (defaultInterval : Int) : RpcRun B := ⟨.create defaultInterval, [], [], []⟩

inductive Run (guard : RpcRun B → Act B → Prop) : RpcRun B → Prop where
  | fresh {defaultInterval : Int} (positive : 0 < defaultInterval) : Run guard (fresh defaultInterval)
  | step {s : RpcRun B} (act : Act B) (before : Run guard s) (meets : guard s act) : Run guard (s.step act)

/-- Every callback is called at most once, and not after its tick; it is `Process` that calls it only at its tick,
with a null pointer. After that call of `Process`, each callback was called or unregistered. -/
structure OnTime (s : RpcRun B) : Prop where
  serials : ∀ request ∈ s.requests, request.serial ≠ 0
  once : (s.calls.map Call.request).Nodup
  calls : ∀ call ∈ s.calls, ∃ request, s.requests[call.request]? = some request ∧ call.tick ≤ request.due ∧
    (call.timeout = true → call.tick = request.due ∧ call.argument = none)
  settled : s.manager.calling = false → ∀ (n : Nat) (request : Request), s.requests[n]? = some request →
    request.due ≤ s.manager.ticks → n ∈ s.calls.map Call.request ∨ n ∈ s.unregistered

/-! ## The invariant -/

/-- The queue without the entry whose callback is running. -/
def queue (s : RpcRun B) : List (Int × Nat) := if s.manager.calling then s.manager.serials.tail else s.manager.serials

/-- The serials are the numbers of the registrations, from one on. Each callback waits in the queue, or was called
or unregistered. -/
structure Core (s : RpcRun B) (queue : List (Int × Nat)) : Prop where
  positive : 0 < s.manager.defaultInterval
  nonneg : 0 ≤ s.manager.ticks
  serial : s.manager.serial = s.requests.length
  serials : ∀ (n : Nat) (request : Request), s.requests[n]? = some request → request.serial = n + 1
  mapping : ∀ serial n, s.manager.mapping serial = some n → serial = n + 1 ∧ n < s.requests.length
  sorted : queue.Pairwise fun first second => first.1 ≤ second.1
  floor : ∀ entry ∈ queue, s.manager.ticks ≤ entry.1
  entries : ∀ entry ∈ queue, ∃ (n : Nat) (request : Request), s.requests[n]? = some request ∧ entry = (request.due, n + 1)
  waiting : ∀ (n : Nat) (request : Request), s.requests[n]? = some request → s.manager.mapping (n + 1) ≠ none →
    (request.due, n + 1) ∈ queue
  closed : ∀ n < s.requests.length, s.manager.mapping (n + 1) = none →
    n ∈ s.calls.map Call.request ∨ n ∈ s.unregistered
  called : ∀ n ∈ s.calls.map Call.request, s.manager.mapping (n + 1) = none
  once : (s.calls.map Call.request).Nodup
  calls : ∀ call ∈ s.calls, ∃ request, s.requests[call.request]? = some request ∧ call.tick ≤ request.due ∧
    (call.timeout = true → call.tick = request.due ∧ call.argument = none)

structure Inv (s : RpcRun B) : Prop where
  core : Core s s.queue
  busy : s.manager.calling = true → s.manager.serials ≠ []
  above : s.manager.calling = false → ∀ entry ∈ s.manager.serials, s.manager.ticks < entry.1

section
variable {s : RpcRun B} {queue : List (Int × Nat)} {n : Nat}

theorem Inv.onTime (inv : Inv s) : OnTime s := by
  have core := inv.core
  refine ⟨fun request member => ?_, core.once, core.calls, fun idle n request found past => ?_⟩
  · obtain ⟨n, found⟩ := List.getElem?_of_mem member
    rw [core.serials n request found]
    exact Nat.succ_ne_zero n
  · have inside : n < s.requests.length := (List.getElem?_eq_some_iff.mp found).1
    by_cases done : s.manager.mapping (n + 1) = none
    · exact core.closed n inside done
    · have entry := core.waiting n request found done
      rw [RpcRun.queue, idle] at entry
      have late := inv.above idle _ entry
      dsimp only at late
      omega

/-- A callback is taken out and called, not later than at its tick. -/
theorem Core.take (core : Core s queue) {serial : Nat} (found : s.manager.mapping serial = some n) (argument : Option B)
    (timeout : Bool) {request : Request} (known : s.requests[n]? = some request)
    (punctual : s.manager.ticks ≤ request.due) (exact' : timeout = true → s.manager.ticks = request.due ∧ argument = none) :
    Core { s with
      manager := { s.manager with mapping := Function.update s.manager.mapping serial none }
      calls := s.calls ++ [⟨n, argument, s.manager.ticks, timeout⟩] } queue := by
  obtain ⟨rfl, inside⟩ := core.mapping serial n found
  have open' : n ∉ s.calls.map Call.request := by
    intro member
    rw [core.called n member] at found
    cases found
  refine ⟨core.positive, core.nonneg, core.serial, core.serials, ?mapping, core.sorted, core.floor, core.entries,
    ?waiting, ?closed, ?called, ?once, ?calls⟩
  case mapping =>
    intro serial k there
    dsimp only at there
    by_cases same : serial = n + 1
    · rw [same, Function.update_self] at there
      cases there
    · rw [Function.update_of_ne same] at there
      exact core.mapping serial k there
  case waiting =>
    intro k request' known' there
    dsimp only at there
    by_cases same : k + 1 = n + 1
    · rw [same, Function.update_self] at there
      exact absurd rfl there
    · rw [Function.update_of_ne same] at there
      exact core.waiting k request' known' there
  case closed =>
    intro k inside' there
    dsimp only at there ⊢
    rw [List.map_append]
    by_cases same : k + 1 = n + 1
    · cases same
      exact .inl (List.mem_append_right _ List.mem_cons_self)
    · rw [Function.update_of_ne same] at there
      rcases core.closed k inside' there with called | unregistered
      · exact .inl (List.mem_append_left _ called)
      · exact .inr unregistered
  case called =>
    intro k member
    dsimp only at member
    rw [List.map_append, List.mem_append] at member
    by_cases same : k + 1 = n + 1
    · rw [same]
      exact Function.update_self _ _ _
    · refine (Function.update_of_ne same _ _).trans (core.called k ?_)
      rcases member with member | member
      · exact member
      · exact absurd (congrArg (· + 1) (List.mem_singleton.mp member)) same
  case once =>
    dsimp only
    rw [List.map_append, List.map_singleton, ← List.concat_eq_append]
    exact core.once.concat open'
  case calls =>
    intro call member
    rcases List.mem_append.mp member with old | new
    · exact core.calls call old
    · cases List.mem_singleton.mp new
      exact ⟨request, known, punctual, exact'⟩

theorem Core.unregister (core : Core s queue) (serial : Nat) : Core (s.step (.unregister serial)) queue := by
  refine ⟨core.positive, core.nonneg, core.serial, core.serials, ?mapping, core.sorted, core.floor, core.entries,
    ?waiting, ?closed, ?called, core.once, core.calls⟩
  case mapping =>
    intro serial' k there
    dsimp only [step, RpcManager.unregister] at there ⊢
    by_cases same : serial' = serial
    · rw [same, Function.update_self] at there
      cases there
    · rw [Function.update_of_ne same] at there
      exact core.mapping serial' k there
  case waiting =>
    intro k request known there
    dsimp only [step, RpcManager.unregister] at there
    by_cases same : k + 1 = serial
    · rw [same, Function.update_self] at there
      exact absurd rfl there
    · rw [Function.update_of_ne same] at there
      exact core.waiting k request known there
  case closed =>
    intro k inside there
    dsimp only [step, RpcManager.unregister] at inside there ⊢
    cases found : s.manager.mapping (k + 1) with
    | none =>
      rcases core.closed k inside found with called | unregistered
      · exact .inl called
      · exact .inr (List.mem_append_left _ unregistered)
    | some j =>
      -- only the callback with the given serial is taken out now
      have same : k + 1 = serial := by
        by_contra other
        rw [Function.update_of_ne other, found] at there
        cases there
      have number : k = j := Nat.succ.inj (core.mapping _ j found).1
      rw [← same, found, number]
      exact .inr (List.mem_append_right _ List.mem_cons_self)
  case called =>
    intro k member
    dsimp only [step, RpcManager.unregister] at member ⊢
    by_cases same : k + 1 = serial
    · rw [same, Function.update_self]
    · rw [Function.update_of_ne same]
      exact core.called k member

theorem chosen_pos (core : Core s queue) {interval : Int} (nonneg : 0 ≤ interval) :
    0 < s.manager.chosen interval := by
  have positive := core.positive
  unfold RpcManager.chosen
  split <;> omega

theorem Core.register (core : Core s queue) {interval : Int} (nonneg : 0 ≤ interval)
    (later : ∀ entry ∈ queue, entry.1 ≤ s.manager.ticks + s.manager.chosen interval)
    (bounded : s.manager.serial + 1 < 2 ^ 32) :
    Core (s.step (.register interval))
      (queue ++ [(s.manager.ticks + s.manager.chosen interval, s.requests.length + 1)]) := by
  have positive := chosen_pos core nonneg
  have next : (s.manager.serial + 1) % 2 ^ 32 = s.requests.length + 1 := by
    rw [Nat.mod_eq_of_lt bounded, core.serial]
  constructor
  case positive => exact core.positive
  case nonneg => exact core.nonneg
  case once => exact core.once
  case sorted =>
    rw [List.pairwise_append]
    refine ⟨core.sorted, List.pairwise_singleton _ _, fun entry member last same => ?_⟩
    cases List.mem_singleton.mp same
    exact later entry member
  case floor =>
    intro entry member
    rcases List.mem_append.mp member with before | last
    · exact core.floor entry before
    · cases List.mem_singleton.mp last
      dsimp only [step, RpcManager.register]
      omega
  all_goals dsimp only [step, RpcManager.register]; rw [next]
  case serial => rw [List.length_append, List.length_singleton]
  case serials =>
    intro n request known
    rcases getElem?_concat_cases known with before | ⟨rfl, rfl⟩
    · exact core.serials n request before
    · rfl
  case mapping =>
    intro serial n there
    rw [List.length_append, List.length_singleton]
    by_cases same : serial = s.requests.length + 1
    · rw [same, Function.update_self] at there
      cases there
      exact ⟨same, Nat.lt_succ_self _⟩
    · rw [Function.update_of_ne same] at there
      obtain ⟨number, inside⟩ := core.mapping serial n there
      exact ⟨number, Nat.lt_succ_of_lt inside⟩
  case entries =>
    intro entry member
    rcases List.mem_append.mp member with before | last
    · obtain ⟨n, request, known, shape⟩ := core.entries entry before
      exact ⟨n, request, getElem?_append_of_some known, shape⟩
    · cases List.mem_singleton.mp last
      exact ⟨s.requests.length, _, List.getElem?_concat_length, rfl⟩
  case waiting =>
    intro n request known there
    rcases getElem?_concat_cases known with before | ⟨rfl, rfl⟩
    · have inside := (List.getElem?_eq_some_iff.mp before).1
      have other : n + 1 ≠ s.requests.length + 1 := by omega
      rw [Function.update_of_ne other] at there
      exact List.mem_append_left _ (core.waiting n request before there)
    · exact List.mem_append_right _ List.mem_cons_self
  case closed =>
    intro n inside there
    rw [List.length_append, List.length_singleton] at inside
    by_cases same : n + 1 = s.requests.length + 1
    · rw [same, Function.update_self] at there
      cases there
    · rw [Function.update_of_ne same] at there
      exact core.closed n (by omega) there
  case called =>
    intro n member
    have inside : n < s.requests.length := by
      obtain ⟨call, known, rfl⟩ := List.mem_map.mp member
      obtain ⟨request, found, -⟩ := core.calls call known
      exact (List.getElem?_eq_some_iff.mp found).1
    have other : n + 1 ≠ s.requests.length + 1 := by omega
    rw [Function.update_of_ne other]
    exact core.called n member
  case calls =>
    intro call member
    obtain ⟨request, known, rest⟩ := core.calls call member
    exact ⟨request, getElem?_append_of_some known, rest⟩

/-- Popping an entry whose callback is no longer waiting. -/
theorem Core.pop {entry : Int × Nat} (core : Core s (entry :: queue)) (done : s.manager.mapping entry.2 = none) :
    Core s queue := by
  refine ⟨core.positive, core.nonneg, core.serial, core.serials, core.mapping, (List.pairwise_cons.mp core.sorted).2,
    fun e member => core.floor e (List.mem_cons_of_mem _ member),
    fun e member => core.entries e (List.mem_cons_of_mem _ member), ?_, core.closed, core.called, core.once, core.calls⟩
  intro n request known open'
  rcases List.mem_cons.mp (core.waiting n request known open') with same | member
  · rw [← same] at done
    exact absurd done open'
  · exact member

theorem Core.retarget (core : Core s queue) (serials : List (Int × Nat)) (calling : Bool) :
    Core { s with manager := { s.manager with serials := serials, calling := calling } } queue :=
  ⟨core.positive, core.nonneg, core.serial, core.serials, core.mapping, core.sorted, core.floor, core.entries,
    core.waiting, core.closed, core.called, core.once, core.calls⟩

theorem timedOut_none {manager : RpcManager Nat} : s.timedOut (manager, none) = { s with manager := manager } := by
  simp only [timedOut, Option.map_none, Option.toList_none, List.append_nil]

theorem Core.drain (core : Core s queue) : Inv (s.timedOut (s.manager.drain queue)) := by
  induction queue with
  | nil =>
    rw [RpcManager.drain, timedOut_none]
    exact ⟨core.retarget [] false, fun busy => (nomatch busy), fun _ entry member => (nomatch member)⟩
  | cons entry rest ih =>
    obtain ⟨deadline, serial⟩ := entry
    have floor := core.floor _ List.mem_cons_self
    rw [RpcManager.drain]
    split
    next expired =>
      cases found : s.manager.mapping serial with
      | none => exact ih (core.pop found)
      | some n =>
        obtain ⟨k, request, known, shape⟩ := core.entries _ List.mem_cons_self
        obtain ⟨rfl, rfl⟩ := Prod.mk.inj shape
        obtain ⟨number, -⟩ := core.mapping _ n found
        cases Nat.succ.inj number
        have taken := core.take found none true known floor fun _ => ⟨Int.le_antisymm floor expired, rfl⟩
        have popped := taken.pop (Function.update_self _ _ _)
        refine ⟨popped.retarget ((request.due, n + 1) :: rest) true, fun _ => List.cons_ne_nil _ _, ?_⟩
        intro idle
        cases idle
    next later =>
      rw [timedOut_none]
      refine ⟨core.retarget _ false, fun busy => (nomatch busy), fun _ entry member => ?_⟩
      -- the queue is sorted, so nothing behind this entry is due either
      have first : s.manager.ticks < deadline := Int.not_le.mp later
      rcases List.mem_cons.mp member with rfl | behind
      · exact first
      · exact Int.lt_of_lt_of_le first ((List.pairwise_cons.mp core.sorted).1 entry behind)

theorem Inv.process (inv : Inv s) (idle : s.manager.calling = false) (bounded : s.manager.ticks + 1 < 2 ^ 31) :
    Inv (s.step .process) := by
  have core := inv.core
  rw [RpcRun.queue, idle, if_neg Bool.false_ne_true] at core
  have nonneg := core.nonneg
  have next : toInt32 (s.manager.ticks + 1) = s.manager.ticks + 1 := toInt32_of_lt (by omega) bounded
  have ticked : Core { s with manager := { s.manager with ticks := s.manager.ticks + 1 } } s.manager.serials :=
    ⟨core.positive, by dsimp only; omega, core.serial, core.serials, core.mapping, core.sorted,
      fun entry member => inv.above idle entry member, core.entries, core.waiting, core.closed, core.called, core.once,
      core.calls⟩
  have drained := ticked.drain
  dsimp only [step]
  unfold RpcManager.process
  rw [next]
  exact drained

theorem Inv.returned (inv : Inv s) (busy : s.manager.calling = true) : Inv (s.step .returned) := by
  have core := inv.core
  rw [RpcRun.queue, busy, if_pos rfl] at core
  exact core.drain

theorem Inv.callback (inv : Inv s) (serial : Nat) (bb : Option B) : Inv (s.step (.callback serial bb)) := by
  have core := inv.core
  dsimp only [step]
  unfold RpcManager.callback
  cases found : s.manager.mapping serial with
  | none => simpa using inv
  | some n =>
    obtain ⟨rfl, inside⟩ := core.mapping serial n found
    obtain ⟨request, known⟩ : ∃ request, s.requests[n]? = some request := ⟨_, List.getElem?_eq_getElem inside⟩
    have entry := core.waiting n request known (by rw [found]; exact Option.some_ne_none n)
    have taken := core.take found bb false known (core.floor _ entry) fun timeout => nomatch timeout
    exact ⟨taken, inv.busy, inv.above⟩

theorem Inv.register (inv : Inv s) {interval : Int} (nonneg : 0 ≤ interval) (orderly : s.Orderly (.register interval)) :
    Inv (s.step (.register interval)) := by
  obtain ⟨later, bounded, small⟩ := orderly
  have core := inv.core
  have positive := chosen_pos core nonneg
  have ticks := core.nonneg
  have deadline : toInt32 (s.manager.ticks + s.manager.chosen interval) = s.manager.ticks + s.manager.chosen interval :=
    toInt32_of_lt (by omega) small
  have next : (s.manager.serial + 1) % 2 ^ 32 = s.requests.length + 1 := by rw [Nat.mod_eq_of_lt bounded, core.serial]
  have serials : (s.step (.register interval)).manager.serials =
      s.manager.serials ++ [(s.manager.ticks + s.manager.chosen interval, s.requests.length + 1)] := by
    dsimp only [step, RpcManager.register]
    rw [deadline, next]
  have subset : ∀ entry ∈ s.queue, entry ∈ s.manager.serials := by
    intro entry member
    unfold RpcRun.queue at member
    split at member
    · exact List.mem_of_mem_tail member
    · exact member
  have registered := core.register nonneg (fun entry member => later entry (subset entry member)) bounded
  refine ⟨?_, fun busy => ?_, fun idle entry member => ?_⟩
  · have queue : (s.step (.register interval)).queue =
        s.queue ++ [(s.manager.ticks + s.manager.chosen interval, s.requests.length + 1)] := by
      unfold RpcRun.queue
      rw [serials]
      change (if s.manager.calling then _ else _) = _
      split
      next busy => rw [List.tail_append_of_ne_nil (inv.busy busy)]
      next => rfl
    rw [queue]
    exact registered
  · rw [serials]
    exact List.append_ne_nil_of_right_ne_nil _ (List.cons_ne_nil _ _)
  · rw [serials] at member
    rcases List.mem_append.mp member with before | last
    · exact inv.above idle entry before
    · cases List.mem_singleton.mp last
      dsimp only [step, RpcManager.register]
      omega

theorem Inv.step (inv : Inv s) {act : Act B} (allowed : s.Allowed act) (orderly : s.Orderly act) : Inv (s.step act) := by
  cases act with
  | register interval => exact inv.register allowed orderly
  | callback serial bb => exact inv.callback serial bb
  | unregister serial => exact ⟨inv.core.unregister serial, inv.busy, inv.above⟩
  | process => exact inv.process allowed orderly
  | returned => exact inv.returned allowed

end

/-- In a run whose requests come in the order of their ticks, before the counters overflow. -/
theorem run_onTime {s : RpcRun B} (run : Run (fun s act => s.Allowed act ∧ s.Orderly act) s) : OnTime s := by
  apply Inv.onTime
  induction run with
  | fresh positive =>
    refine ⟨⟨positive, Int.le_refl _, rfl, ?_, ?_, List.Pairwise.nil, ?_, ?_, ?_, ?_, ?_, List.nodup_nil, ?_⟩, ?_, ?_⟩
    all_goals simp [fresh, RpcManager.create, RpcRun.queue]
  | step act before meets ih => exact ih.step meets.1 meets.2

/-- Two requests in order, where the first is answered and the second is not. -/
theorem run_onTime_two : ∃ s : RpcRun Nat, OnTime s ∧
    s.calls = [⟨0, some 42, 1, false⟩, ⟨1, none, 2, true⟩] ∧ s.requests = [⟨1, 2⟩, ⟨2, 2⟩] := by
  have run₀ : Run (fun s act => s.Allowed act ∧ s.Orderly act) (fresh 2 : RpcRun Nat) := .fresh (by decide)
  have run₁ := Run.step (.register 2) run₀ ⟨by decide, by decide⟩
  have run₂ := Run.step (.register 0) run₁ ⟨by decide, by decide⟩
  have run₃ := Run.step .process run₂ ⟨by decide, by decide⟩
  have run₄ := Run.step (.callback 1 (some 42)) run₃ ⟨by decide, by decide⟩
  have run₅ := Run.step .process run₄ ⟨by decide, by decide⟩
  have run₆ := Run.step .returned run₅ ⟨by decide, by decide⟩
  exact ⟨_, run_onTime run₆, by decide, by decide⟩

/-- A request for one tick waits behind one for five. -/
theorem run_late : ∃ s : RpcRun Nat, Run Allowed s ∧ ¬ OnTime s := by
  have run₀ : Run Allowed (fresh 2 : RpcRun Nat) := .fresh (by decide)
  have run₁ := Run.step (.register 5) run₀ (by decide)
  have run₂ := Run.step (.register 1) run₁ (by decide)
  have run₃ := Run.step .process run₂ (by decide)
  refine ⟨_, run₃, fun onTime => ?_⟩
  have settled := onTime.settled (by decide) 1 ⟨2, 1⟩ (by decide) (by decide)
  revert settled
  decide

end RpcRun

end Xxlib.Uv4
