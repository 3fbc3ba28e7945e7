import Xxlib.Lib.SwapRemove
import Mathlib.Data.List.Nodup

/-! The coroutines of `xx_coroutine.go`: goroutines of which one at a time goes on.

A coroutine is a number. Both channels are unbuffered, so that a send and the receive it meets are one step. A
coroutine's goroutine performs `Begin`, then `Yield` and `New` any number of times (`Sleep` is a number of `Yield`s),
then `End`.
-/

set_option autoImplicit false

namespace Xxlib.Go

open Lib

/-- Where a coroutine's goroutine is. `Begin` and the second half of `Yield` are the same receive. -/
inductive CorPhase where
  /-- on its way to `<- zs.C` -/
  | arriving
  /-- at `<- zs.C` -/
  | waiting
  | running
  /-- at `zs.Ctx.C <- 1` -/
  | yielding
  /-- at `zs.Ctx.C <- 0` -/
  | ending
  | ended
  deriving DecidableEq

/-- The coroutine has been resumed, and the scheduler does not know yet that it came to `Yield` or `End`. -/
def CorPhase.active : CorPhase → Bool
  | .running | .yielding | .ending => true
  | .arriving | .waiting | .ended => false

/-- Where the goroutine is that calls `Resume`. -/
inductive MainPhase where
  | outside
  /-- at the head of the loop, with this number of rounds to go -/
  | looping (rounds : Nat)
  /-- at `c.C <- 1` -/
  | sending (i c : Nat)
  /-- at `<- zs.C` -/
  | receiving (i c : Nat)
  /-- at `zs.Delete(c)` -/
  | deleting (i c : Nat)
  deriving DecidableEq

/-- The coroutine has ended, and is about to be deleted. -/
def MainPhase.deletes : MainPhase → Nat → Bool
  | .deleting _ c, d => c = d
  | _, _ => false

/-- What a call of `Resume` found and did. -/
structure ResumeCall where
  present : List Nat := []
  resumed : List Nat := []
  ended : List Nat := []
  added : List Nat := []
  left : List Nat := []
  answer : Bool := false

/-- `call` is the call of `Resume` under way, `calls` are those that have returned. -/
structure Coroutine where
  cors : List Nat := []
  index : Nat → Nat := fun _ => 0
  created : Nat := 0
  phase : Nat → CorPhase := fun _ => .arriving
  main : MainPhase := .outside
  call : ResumeCall := {}
  calls : List ResumeCall := []

namespace Coroutine

/-- `caller` is the coroutine that creates another one, or `none` for the goroutine that calls `Resume`. -/
inductive Event where
  | new (caller : Option Nat)
  | arrive (c : Nat)
  | yield (c : Nat)
  | endCor (c : Nat)
  | resume
  | loop
  | send
  | receive (c : Nat)
  | delete

/-- The new coroutine is number `created`. -/
def new (s : Coroutine) : Coroutine :=
  { s with
    cors := s.cors ++ [s.created]
    index := Function.update s.index s.created s.cors.length
    created := s.created + 1
    phase := Function.update s.phase s.created .arriving }

/-- `Delete`, without an answer where an index is out of range. -/
def deleteCor (c : Nat) (s : Coroutine) : Option Coroutine :=
  let idx := s.index c
  let count := s.cors.length
  if idx + 1 < count then do
    let last ← s.cors[count - 1]?
    some { s with index := Function.update s.index last idx, cors := (s.cors.set idx last).take (count - 1) }
  else if 0 < count then some { s with cors := s.cors.take (count - 1) }
  else none

def enter (phase : CorPhase) (c : Nat) (s : Coroutine) : Coroutine :=
  { s with phase := Function.update s.phase c phase }

/-- `Resume` returns `answer`. -/
def leave (answer : Bool) (s : Coroutine) : Coroutine :=
  { s with main := .outside, calls := s.calls ++ [{ s.call with left := s.cors, answer }] }

def step (s : Coroutine) : Event → Option Coroutine
  | .new none => if s.main = .outside then some s.new else none
  | .new (some caller) =>
      if s.phase caller = .running then
        some { s.new with call := { s.call with added := s.call.added ++ [s.created] } }
      else none
  | .arrive c => if s.phase c = .arriving ∧ c < s.created then some (s.enter .waiting c) else none
  | .yield c => if s.phase c = .running then some (s.enter .yielding c) else none
  | .endCor c => if s.phase c = .running then some (s.enter .ending c) else none
  | .resume =>
      if s.main = .outside then
        if s.cors.length = 0 then some ({ s with call := {} }.leave true)
        else some { s with main := .looping s.cors.length, call := { present := s.cors } }
      else none
  | .loop =>
      match s.main with
      | .looping 0 => some (s.leave false)
      | .looping (i + 1) => s.cors[i]?.map fun c => { s with main := .sending i c }
      | _ => none
  | .send =>
      match s.main with
      | .sending i c =>
          if s.phase c = .waiting then
            some { s.enter .running c with
              main := .receiving i c, call := { s.call with resumed := s.call.resumed ++ [c] } }
          else none
      | _ => none
  | .receive sender =>
      match s.main, s.phase sender with
      | .receiving i _, .yielding => some { s.enter .arriving sender with main := .looping i }
      | .receiving i c, .ending =>
          some { s.enter .ended sender with
            main := .deleting i c, call := { s.call with ended := s.call.ended ++ [sender] } }
      | _, _ => none
  | .delete =>
      match s.main with
      | .deleting i c => (s.deleteCor c).map fun s => { s with main := .looping i }
      | _ => none

/-- The states of a new `Coroutine`. -/
inductive Run : Coroutine → Prop where
  | start : Run {}
  | next {s s' : Coroutine} (event : Event) (before : Run s) (runs : s.step event = some s') : Run s'

/-! ## What holds in every state -/

/-- The call of `Resume` has not got to the first `n` coroutines. -/
def Untouched (s : Coroutine) (n : Nat) : Prop :=
  n ≤ s.call.present.length ∧ s.cors.take n = s.call.present.take n

/-- All but the first `n` have been resumed, from the last one down. -/
def Resumed (s : Coroutine) (n : Nat) : Prop := s.call.resumed = (s.call.present.drop n).reverse

def Walk (s : Coroutine) : MainPhase → Prop
  | .outside => True
  | .looping n => Untouched s n ∧ Resumed s n
  | .sending i c => Untouched s (i + 1) ∧ Resumed s (i + 1) ∧ s.cors[i]? = some c
  | .receiving i c => Untouched s (i + 1) ∧ Resumed s i ∧ s.cors[i]? = some c ∧ (s.phase c).active = true
  | .deleting i c => Untouched s (i + 1) ∧ Resumed s i ∧ s.cors[i]? = some c ∧ s.phase c = .ended ∧ c ∈ s.call.ended

/-- What the call of `Resume` has added and removed so far. -/
structure Balance (s : Coroutine) : Prop where
  old : ∀ c ∈ s.call.present, c < s.created
  distinct : s.call.present.Nodup
  ended : ∀ c ∈ s.call.ended, c ∈ s.call.present
  apart : ∀ c ∈ s.call.added, c ∉ s.call.present
  cors : ∀ c, c ∈ s.cors ↔ c ∈ s.call.present ∧ c ∉ s.call.ended ∨ c ∈ s.call.added ∨ s.main.deletes c = true

/-- A call of `Resume` resumes all that are present once and no other, and removes those that end. -/
structure Correct (call : ResumeCall) : Prop where
  resumed : call.resumed = call.present.reverse
  distinct : call.present.Nodup
  ended : ∀ c ∈ call.ended, c ∈ call.present
  apart : ∀ c ∈ call.added, c ∉ call.present
  left : ∀ c, c ∈ call.left ↔ c ∈ call.present ∧ c ∉ call.ended ∨ c ∈ call.added

structure Sound (s : Coroutine) : Prop where
  indexed : ∀ i c, s.cors[i]? = some c → s.index c = i
  members : ∀ c, c ∈ s.cors ↔ c < s.created ∧ (s.phase c ≠ .ended ∨ s.main.deletes c = true)
  active : ∀ c, (s.phase c).active = true → ∃ i, s.main = .receiving i c
  walk : Walk s s.main
  balance : s.main ≠ .outside → Balance s
  correct : ∀ call ∈ s.calls, Correct call

section
variable {s s' : Coroutine}

theorem Sound.places (sound : Sound s) : Indexed s.cors s.index := sound.indexed

theorem Sound.distinct (sound : Sound s) : s.cors.Nodup := sound.places.nodup

theorem Untouched.getElem? {n i : Nat} (untouched : Untouched s n) (before : i < n) :
    s.cors[i]? = s.call.present[i]? := by
  have same := congrArg (fun cors => cors[i]?) untouched.2
  simpa only [List.getElem?_take_of_lt before] using same

theorem Untouched.less {i : Nat} (untouched : Untouched s (i + 1)) : Untouched s i := by
  refine ⟨by have := untouched.1; omega, ?_⟩
  have same := congrArg (List.take i) untouched.2
  simpa only [List.take_take, Nat.min_eq_left (Nat.le_succ i)] using same

@[simp] theorem enter_phase_self {phase : CorPhase} {c : Nat} : (s.enter phase c).phase c = phase :=
  Function.update_self _ _ _

theorem enter_phase_ne {phase : CorPhase} {c d : Nat} (other : d ≠ c) : (s.enter phase c).phase d = s.phase d :=
  Function.update_of_ne other _ _

/-- A coroutine that goes on has not ended. -/
theorem enter_ended_iff {phase : CorPhase} {c : Nat} (alive : phase ≠ .ended) (was : s.phase c ≠ .ended) (d : Nat) :
    (s.enter phase c).phase d = .ended ↔ s.phase d = .ended := by
  by_cases this : d = c
  · rw [this, enter_phase_self]
    exact iff_of_false alive was
  · rw [enter_phase_ne this]

/-- Only the coroutine that the scheduler receives from goes on. -/
theorem Sound.asleep (sound : Sound s) {c : Nat} (active : (s.phase c).active = true)
    (elsewhere : ∀ i, s.main ≠ .receiving i c) : False := by
  obtain ⟨i, receives⟩ := sound.active c active
  exact elsewhere i receives

theorem Sound.not_deleting (sound : Sound s) {c : Nat} (none : s.main.deletes c = false) :
    c ∈ s.cors ↔ c < s.created ∧ (s.phase c ≠ .ended ∨ false = true) := by
  have members := sound.members c
  rwa [none] at members

/-- The scheduler moves from a place where it deletes nothing to another one. -/
theorem Balance.moved (balance : Balance s) (none : ∀ c, s.main.deletes c = false) (cors : s'.cors = s.cors)
    (created : s'.created = s.created) (present : s'.call.present = s.call.present)
    (ended : s'.call.ended = s.call.ended) (added : s'.call.added = s.call.added)
    (still : ∀ c, s'.main.deletes c = false) : Balance s' := by
  refine ⟨?_, ?_, ?_, ?_, fun d => ?_⟩
  · rw [present, created]
    exact balance.old
  · rw [present]
    exact balance.distinct
  · rw [present, ended]
    exact balance.ended
  · rw [present, added]
    exact balance.apart
  · rw [cors, present, ended, added, still, ← none d]
    exact balance.cors d

/-! ## What each step keeps -/

/-- A coroutine goes on without the scheduler. -/
theorem Sound.enter (sound : Sound s) {phase : CorPhase} {c : Nat} (active : phase.active = (s.phase c).active)
    (alive : phase ≠ .ended) (was : s.phase c ≠ .ended) : Sound (s.enter phase c) := by
  have same : ∀ d, ((s.enter phase c).phase d).active = (s.phase d).active := by
    intro d
    by_cases this : d = c
    · rw [this, enter_phase_self, active]
    · rw [enter_phase_ne this]
  have ended := enter_ended_iff alive was
  refine ⟨sound.indexed, fun d => ?_, fun d is => ?_, ?_, fun inside => ?_, sound.correct⟩
  · rw [Ne, ended]
    exact sound.members d
  · rw [same] at is
    exact sound.active d is
  · have walk := sound.walk
    show Walk (s.enter phase c) s.main
    cases main : s.main with
    | outside => trivial
    | looping n =>
      rw [main] at walk
      exact walk
    | sending i d =>
      rw [main] at walk
      exact walk
    | receiving i d =>
      rw [main] at walk
      exact ⟨walk.1, walk.2.1, walk.2.2.1, (same d).trans walk.2.2.2⟩
    | deleting i d =>
      rw [main] at walk
      exact ⟨walk.1, walk.2.1, walk.2.2.1, (ended d).mpr walk.2.2.2.1, walk.2.2.2.2⟩
  · have balance := sound.balance inside
    exact ⟨balance.old, balance.distinct, balance.ended, balance.apart, balance.cors⟩

/-- A new coroutine is at the end of the list, under the number of its place. -/
theorem Sound.new_listed (sound : Sound s) :
    (∀ i c, s.new.cors[i]? = some c → s.new.index c = i) ∧
      (∀ c, c ∈ s.new.cors ↔ c < s.new.created ∧ (s.new.phase c ≠ .ended ∨ s.main.deletes c = true)) ∧
      ∀ c, (s.new.phase c).active = true → c ≠ s.created ∧ (s.phase c).active = true := by
  have fresh : s.created ∉ s.cors := fun member => Nat.lt_irrefl _ ((sound.members _).mp member).1
  unfold new
  refine ⟨sound.places.concat fresh, fun c => ?_, fun c active => ?_⟩
  · simp only [List.mem_append, List.mem_singleton]
    by_cases this : c = s.created
    · subst this
      simp
    · rw [Function.update_of_ne this, sound.members c]
      constructor
      · rintro (⟨less, state⟩ | same)
        · exact ⟨by omega, state⟩
        · exact absurd same this
      · rintro ⟨less, state⟩
        exact .inl ⟨by omega, state⟩
  · simp only at active
    by_cases this : c = s.created
    · rw [this, Function.update_self] at active
      cases active
    · rw [Function.update_of_ne this] at active
      exact ⟨this, active⟩

theorem Sound.new (sound : Sound s) {caller : Option Nat} (runs : s.step (.new caller) = some s') : Sound s' := by
  obtain ⟨indexed, members, active⟩ := sound.new_listed
  cases caller with
  | none =>
    simp only [step] at runs
    split at runs
    next outside =>
      cases runs
      exact ⟨indexed, members, fun c is => sound.active c (active c is).2, by
        show Walk _ s.main
        rw [outside]
        trivial, fun inside => absurd outside inside, sound.correct⟩
    next => cases runs
  | some caller =>
    simp only [step] at runs
    split at runs
    next running =>
      cases runs
      obtain ⟨i, main⟩ := sound.active caller (by rw [running]; rfl)
      have walk := sound.walk
      rw [main] at walk
      obtain ⟨untouched, resumed, found, -⟩ := walk
      have balance := sound.balance (by rw [main]; nofun)
      have known : caller < s.created := ((sound.members caller).mp (List.mem_of_getElem? found)).1
      -- the new one is behind the place where the scheduler is, and is not met in this call
      have room : i < s.cors.length := (List.getElem?_eq_some_iff.mp found).1
      refine ⟨indexed, members, fun c is => sound.active c (active c is).2, ?_, fun _ => ?_, sound.correct⟩
      · show Walk _ s.main
        rw [main]
        refine ⟨⟨untouched.1, ?_⟩, resumed, ?_, ?_⟩
        · show (s.cors ++ [s.created]).take (i + 1) = _
          rw [List.take_append_of_le_length (by omega)]
          exact untouched.2
        · show (s.cors ++ [s.created])[i]? = _
          rw [List.getElem?_append_left room]
          exact found
        · show (Function.update s.phase s.created .arriving caller).active = true
          rw [Function.update_of_ne (by omega), running]
          rfl
      · have none : ∀ c, s.main.deletes c = false := by
          rw [main]
          exact fun _ => rfl
        refine ⟨fun c member => ?_, balance.distinct, balance.ended, fun c member => ?_, fun c => ?_⟩
        · exact Nat.lt_succ_of_lt (balance.old c member)
        · rcases List.mem_append.mp member with old | new
          · exact balance.apart c old
          · obtain rfl := List.mem_singleton.mp new
            exact fun present => Nat.lt_irrefl _ (balance.old _ present)
        · show c ∈ s.cors ++ [s.created] ↔ c ∈ s.call.present ∧ c ∉ s.call.ended ∨
            c ∈ s.call.added ++ [s.created] ∨ s.main.deletes c = true
          rw [List.mem_append, List.mem_append, balance.cors c]
          tauto
    next => cases runs

theorem Sound.resume (sound : Sound s) (runs : s.step .resume = some s') : Sound s' := by
  simp only [step] at runs
  split at runs
  next outside =>
    have none : ∀ c, s.main.deletes c = false := by
      rw [outside]
      exact fun _ => rfl
    have asleep : ∀ c, (s.phase c).active ≠ true := fun c active => sound.asleep active fun i => by rw [outside]; nofun
    split at runs
    next empty =>
      cases runs
      refine ⟨sound.indexed, fun c => sound.not_deleting (none c), fun c active => absurd active (asleep c), trivial,
        fun inside => absurd rfl inside, fun call member => ?_⟩
      · rcases List.mem_append.mp member with old | new
        · exact sound.correct call old
        · obtain rfl := List.mem_singleton.mp new
          obtain nil := List.length_eq_zero_iff.mp empty
          exact ⟨rfl, .nil, nofun, nofun, by simp [nil]⟩
    next =>
      cases runs
      refine ⟨sound.indexed, fun c => sound.not_deleting (none c), fun c active => absurd active (asleep c),
        ⟨⟨Nat.le_refl _, rfl⟩, ?_⟩, fun _ => ?_, sound.correct⟩
      · simp [Resumed]
      · exact ⟨fun c member => ((sound.members c).mp member).1, sound.distinct, nofun, nofun,
          fun c => by simp [MainPhase.deletes]⟩
  next => cases runs

/-- The scheduler moves on, and no coroutine goes on. -/
theorem Sound.move (sound : Sound s) {main : MainPhase} (inside : s.main ≠ .outside)
    (same : ∀ c, main.deletes c = s.main.deletes c) (asleep : ∀ i c, s.main ≠ .receiving i c)
    (walk : Walk { s with main } main) : Sound { s with main } := by
  refine ⟨sound.indexed, fun c => ?_, fun c active => ?_, walk, fun _ => ?_, sound.correct⟩
  · show _ ↔ _ ∧ (_ ∨ main.deletes c = true)
    rw [same]
    exact sound.members c
  · exact (sound.asleep active fun i => asleep i c).elim
  · have balance := sound.balance inside
    refine ⟨balance.old, balance.distinct, balance.ended, balance.apart, fun c => ?_⟩
    show _ ↔ _ ∨ _ ∨ main.deletes c = true
    rw [same]
    exact balance.cors c

theorem Sound.loop (sound : Sound s) (runs : s.step .loop = some s') : Sound s' := by
  simp only [step] at runs
  split at runs
  next main =>
    cases runs
    have walk := sound.walk
    rw [main] at walk
    have balance := sound.balance (by rw [main]; nofun)
    have none : ∀ c, s.main.deletes c = false := by
      rw [main]
      exact fun _ => rfl
    refine ⟨sound.indexed, fun c => sound.not_deleting (none c), fun c active => ?_, trivial,
      fun inside => absurd rfl inside, fun call member => ?_⟩
    · exact (sound.asleep active fun i => by rw [main]; nofun).elim
    · rcases List.mem_append.mp member with old | new
      · exact sound.correct call old
      · obtain rfl := List.mem_singleton.mp new
        refine ⟨walk.2, balance.distinct, balance.ended, balance.apart, fun c => ?_⟩
        have cors := balance.cors c
        rw [none] at cors
        simpa using cors
  next i main =>
    obtain ⟨c, found, rfl⟩ := Option.map_eq_some_iff.mp runs
    have walk := sound.walk
    rw [main] at walk
    refine sound.move (by rw [main]; nofun) (fun d => by rw [main]; rfl) (fun i c => by rw [main]; nofun) ?_
    exact ⟨walk.1, walk.2, found⟩
  next => cases runs

theorem Sound.send (sound : Sound s) (runs : s.step .send = some s') : Sound s' := by
  simp only [step] at runs
  split at runs
  next i c main =>
    split at runs
    next waiting =>
      cases runs
      have walk := sound.walk
      rw [main] at walk
      obtain ⟨untouched, resumed, found⟩ := walk
      have balance := sound.balance (by rw [main]; nofun)
      have none : ∀ c, s.main.deletes c = false := by
        rw [main]
        exact fun _ => rfl
      have present : s.call.present[i]? = some c := (untouched.getElem? (Nat.lt_succ_self i)).symm.trans found
      refine ⟨sound.indexed, fun d => ?_, fun d active => ?_, ⟨untouched, ?_, found, ?_⟩, fun _ => ?_, sound.correct⟩
      · show d ∈ s.cors ↔ d < s.created ∧ ((s.enter .running c).phase d ≠ .ended ∨ _)
        have ended : (s.enter .running c).phase d = .ended ↔ _ := enter_ended_iff (by decide) (by rw [waiting]; nofun) d
        rw [Ne, ended]
        exact sound.not_deleting (none d)
      · by_cases this : d = c
        · exact ⟨i, by rw [this]⟩
        · replace active : ((s.enter .running c).phase d).active = true := active
          rw [enter_phase_ne this] at active
          exact (sound.asleep active fun j => by rw [main]; nofun).elim
      -- the list is walked from its end, so that what was resumed is its reversed rest
      · show s.call.resumed ++ [c] = (s.call.present.drop i).reverse
        obtain ⟨bound, same⟩ := List.getElem?_eq_some_iff.mp present
        rw [List.drop_eq_getElem_cons bound, List.reverse_cons, same, resumed]
      · show ((s.enter .running c).phase c).active = true
        rw [enter_phase_self]
        rfl
      · exact balance.moved none rfl rfl rfl rfl rfl fun _ => rfl
    next => cases runs
  next => cases runs

theorem Sound.receive (sound : Sound s) {sender : Nat} (runs : s.step (.receive sender) = some s') : Sound s' := by
  simp only [step] at runs
  split at runs
  next i c main yielding =>
    cases runs
    obtain ⟨j, receives⟩ := sound.active sender (by rw [yielding]; rfl)
    obtain ⟨rfl, rfl⟩ : i = j ∧ c = sender := by simpa [main] using receives
    have walk := sound.walk
    rw [main] at walk
    have balance := sound.balance (by rw [main]; nofun)
    have none : ∀ d, s.main.deletes d = false := by
      rw [main]
      exact fun _ => rfl
    refine ⟨sound.indexed, fun d => ?_, fun d active => ?_, ⟨walk.1.less, walk.2.1⟩, fun _ => ?_, sound.correct⟩
    · show d ∈ s.cors ↔ d < s.created ∧ ((s.enter .arriving c).phase d ≠ .ended ∨ _)
      have ended : (s.enter .arriving c).phase d = .ended ↔ _ := enter_ended_iff (by decide) (by rw [yielding]; nofun) d
      rw [Ne, ended]
      exact sound.not_deleting (none d)
    · replace active : ((s.enter .arriving c).phase d).active = true := active
      by_cases this : d = c
      · rw [this, enter_phase_self] at active
        cases active
      · rw [enter_phase_ne this] at active
        exact (sound.asleep active fun j => by rw [main]; exact fun other => this (MainPhase.receiving.inj other).2.symm).elim
    · exact balance.moved none rfl rfl rfl rfl rfl fun _ => rfl
  next i c main ending =>
    cases runs
    obtain ⟨j, receives⟩ := sound.active sender (by rw [ending]; rfl)
    obtain ⟨rfl, rfl⟩ : i = j ∧ c = sender := by simpa [main] using receives
    have walk := sound.walk
    rw [main] at walk
    obtain ⟨untouched, resumed, found, -⟩ := walk
    have balance := sound.balance (by rw [main]; nofun)
    have present : c ∈ s.call.present :=
      List.mem_of_getElem? ((untouched.getElem? (Nat.lt_succ_self i)).symm.trans found)
    have known := ((sound.members c).mp (List.mem_of_getElem? found)).1
    refine ⟨sound.indexed, fun d => ?_, fun d active => ?_, ⟨untouched, resumed, found, enter_phase_self, ?_⟩,
      fun _ => ?_, sound.correct⟩
    · have members := sound.members d
      show d ∈ s.cors ↔ d < s.created ∧ ((s.enter .ended c).phase d ≠ .ended ∨ decide (c = d) = true)
      by_cases this : d = c
      · subst this
        simp [List.mem_of_getElem? found, known]
      · rw [enter_phase_ne this, members, main]
        simp [MainPhase.deletes, Ne.symm this]
    · replace active : ((s.enter .ended c).phase d).active = true := active
      by_cases this : d = c
      · rw [this, enter_phase_self] at active
        cases active
      · rw [enter_phase_ne this] at active
        exact (sound.asleep active fun j => by rw [main]; exact fun other => this (MainPhase.receiving.inj other).2.symm).elim
    · exact List.mem_append_right _ (List.mem_singleton.mpr rfl)
    · refine ⟨balance.old, balance.distinct, fun d member => ?_, balance.apart, fun d => ?_⟩
      · rcases List.mem_append.mp member with old | new
        · exact balance.ended d old
        · obtain rfl := List.mem_singleton.mp new
          exact present
      · show d ∈ s.cors ↔ d ∈ s.call.present ∧ d ∉ s.call.ended ++ [c] ∨ d ∈ s.call.added ∨ decide (c = d) = true
        by_cases this : d = c
        · subst this
          simp [List.mem_of_getElem? found]
        · rw [balance.cors d, main]
          simp [MainPhase.deletes, this, Ne.symm this]
  next => cases runs

/-- `Delete` moves the last coroutine into the place of the deleted one, also in its `Index`. -/
theorem Sound.deleteCor (sound : Sound s) {i c : Nat} (found : s.cors[i]? = some c) :
    ∃ index, s.deleteCor c = some { s with cors := swapRemove s.cors i, index } ∧
      ∀ j d, (swapRemove s.cors i)[j]? = some d → index d = j := by
  have place := sound.indexed i c found
  obtain ⟨inside, -⟩ := List.getElem?_eq_some_iff.mp found
  obtain ⟨last, end'⟩ : ∃ last, s.cors[s.cors.length - 1]? = some last := ⟨_, List.getElem?_eq_getElem (by omega)⟩
  have was := sound.indexed _ last end'
  unfold Coroutine.deleteCor
  simp only [place]
  by_cases middle : i + 1 < s.cors.length
  · rw [if_pos middle, end']
    exact ⟨Function.update s.index last i, by simp [swapRemove, end'], sound.places.swapRemove inside end'⟩
  · -- the last one itself is deleted, and no `Index` changes
    have last' : i = s.cors.length - 1 := by omega
    rw [if_neg middle, if_pos (by omega)]
    refine ⟨s.index, ?_, ?_⟩
    · have same : s.cors.set i last = s.cors := by
        rw [last']
        apply List.ext_getElem?
        intro j
        by_cases here : s.cors.length - 1 = j
        · rw [here, List.getElem?_set_self (by omega), ← here, end']
        · rw [List.getElem?_set_ne here]
      simp [swapRemove, end', same]
    · have kept : Function.update s.index last i = s.index := by
        rw [last', ← was]
        exact Function.update_eq_self last s.index
      have places := sound.places.swapRemove inside end'
      rw [kept] at places
      exact places

theorem Sound.delete (sound : Sound s) (runs : s.step .delete = some s') : Sound s' := by
  simp only [step] at runs
  split at runs
  next i c main =>
    have walk := sound.walk
    rw [main] at walk
    obtain ⟨untouched, resumed, found, ended, recorded⟩ := walk
    have balance := sound.balance (by rw [main]; nofun)
    obtain ⟨inside, -⟩ := List.getElem?_eq_some_iff.mp found
    obtain ⟨index, deletes, indexed⟩ := sound.deleteCor found
    rw [deletes] at runs
    cases runs
    -- a coroutine is in the list once, under its `Index`
    have remaining : ∀ d, d ∈ swapRemove s.cors i ↔ d ∈ s.cors ∧ d ≠ c := fun d => sound.places.mem_swapRemove found
    refine ⟨indexed, fun d => ?_, fun d active => ?_, ⟨⟨untouched.less.1, ?_⟩, resumed⟩, fun _ => ?_, sound.correct⟩
    · show d ∈ swapRemove s.cors i ↔ d < s.created ∧ (s.phase d ≠ .ended ∨ false = true)
      rw [remaining, sound.members d, main]
      by_cases this : d = c
      · subst this
        simp [ended]
      · simp [MainPhase.deletes, this, Ne.symm this]
    · exact (sound.asleep active fun j => by rw [main]; nofun).elim
    · show (swapRemove s.cors i).take i = _
      rw [swapRemove_take inside (Nat.le_refl i)]
      exact untouched.less.2
    · refine ⟨balance.old, balance.distinct, balance.ended, balance.apart, fun d => ?_⟩
      show d ∈ swapRemove s.cors i ↔ d ∈ s.call.present ∧ d ∉ s.call.ended ∨ d ∈ s.call.added ∨ false = true
      rw [remaining, balance.cors d, main]
      by_cases this : d = c
      · subst this
        have absent : d ∉ s.call.added := fun added => balance.apart d added (balance.ended d recorded)
        simp [recorded, absent]
      · simp [MainPhase.deletes, this, Ne.symm this]
  next => cases runs

/-! ## Whole runs -/

theorem Sound.step (sound : Sound s) {event : Event} (runs : s.step event = some s') : Sound s' := by
  cases event with
  | new caller => exact sound.new runs
  | arrive c =>
    simp only [Coroutine.step] at runs
    split at runs
    next phase =>
      cases runs
      exact sound.enter (by rw [phase.1]; rfl) nofun (by rw [phase.1]; nofun)
    next => cases runs
  | yield c =>
    simp only [Coroutine.step] at runs
    split at runs
    next phase =>
      cases runs
      exact sound.enter (by rw [phase]; rfl) nofun (by rw [phase]; nofun)
    next => cases runs
  | endCor c =>
    simp only [Coroutine.step] at runs
    split at runs
    next phase =>
      cases runs
      exact sound.enter (by rw [phase]; rfl) nofun (by rw [phase]; nofun)
    next => cases runs
  | resume => exact sound.resume runs
  | loop => exact sound.loop runs
  | send => exact sound.send runs
  | receive c => exact sound.receive runs
  | delete => exact sound.delete runs

theorem Run.sound (run : Run s) : Sound s := by
  induction run with
  | start => exact ⟨nofun, by simp, nofun, trivial, fun inside => absurd rfl inside, nofun⟩
  | next event before runs sound => exact sound.step runs

/-- Within `Resume` some goroutine can always go on, without creating a coroutine. -/
theorem Sound.progress (sound : Sound s) (inside : s.main ≠ .outside) :
    ∃ event, (∀ caller, event ≠ .new caller) ∧ (s.step event).isSome = true := by
  have walk := sound.walk
  cases main : s.main with
  | outside => exact absurd main inside
  | looping n =>
    rw [main] at walk
    obtain ⟨untouched, -⟩ := walk
    cases n with
    | zero => exact ⟨.loop, nofun, by simp [Coroutine.step, main]⟩
    | succ i =>
      have found := untouched.getElem? (Nat.lt_succ_self i)
      rw [List.getElem?_eq_getElem untouched.1] at found
      exact ⟨.loop, nofun, by simp [Coroutine.step, main, found, Option.map_some]⟩
  | sending i c =>
    rw [main] at walk
    have known := (sound.members c).mp (List.mem_of_getElem? walk.2.2)
    rw [main] at known
    -- nobody has been resumed, so that the coroutine is at its receive or on its way to it
    have asleep : (s.phase c).active = false := by
      rw [Bool.eq_false_iff]
      exact fun active => sound.asleep active fun j => by rw [main]; nofun
    cases phase : s.phase c with
    | arriving => exact ⟨.arrive c, nofun, by simp [Coroutine.step, phase, known.1]⟩
    | waiting => exact ⟨.send, nofun, by simp [Coroutine.step, main, phase]⟩
    | ended => simp [phase, MainPhase.deletes] at known
    | running => rw [phase] at asleep; cases asleep
    | yielding => rw [phase] at asleep; cases asleep
    | ending => rw [phase] at asleep; cases asleep
  | receiving i c =>
    rw [main] at walk
    have active := walk.2.2.2
    cases phase : s.phase c with
    | running => exact ⟨.yield c, nofun, by simp [Coroutine.step, phase]⟩
    | yielding => exact ⟨.receive c, nofun, by simp [Coroutine.step, main, phase]⟩
    | ending => exact ⟨.receive c, nofun, by simp [Coroutine.step, main, phase]⟩
    | arriving => rw [phase] at active; cases active
    | waiting => rw [phase] at active; cases active
    | ended => rw [phase] at active; cases active
  | deleting i c =>
    rw [main] at walk
    obtain ⟨index, deletes, -⟩ := sound.deleteCor walk.2.2.1
    exact ⟨.delete, nofun, by simp [Coroutine.step, main, deletes, Option.map_some]⟩

/-- Outside `Resume` the list holds the coroutines that have not ended, each under its `Index`. Every call resumed
those that were present once and none that was added, and removed those that ended. At no time two coroutines are
resumed, and a call does not get stuck. -/
theorem resume_schedules (run : Run s) :
    (s.main = .outside → (∀ i c, s.cors[i]? = some c → s.index c = i) ∧
        ∀ c, c ∈ s.cors ↔ c < s.created ∧ s.phase c ≠ .ended) ∧
      (∀ call ∈ s.calls, Correct call) ∧
      (∀ c d, (s.phase c).active = true → (s.phase d).active = true → c = d) ∧
      (s.main ≠ .outside → ∃ event, (∀ caller, event ≠ .new caller) ∧ (s.step event).isSome = true) := by
  have sound := run.sound
  refine ⟨fun outside => ⟨sound.indexed, fun c => ?_⟩, sound.correct, fun c d first second => ?_, sound.progress⟩
  · have members := sound.members c
    rw [outside] at members
    simpa [MainPhase.deletes] using members
  · obtain ⟨i, receives⟩ := sound.active c first
    obtain ⟨j, also⟩ := sound.active d second
    rw [receives] at also
    cases also
    rfl

end

/-- Of two coroutines the second one creates a third one and ends, and the third one takes its place. -/
theorem resume_schedules_three : ∃ s : Coroutine, s.cors = [0, 2] ∧ s.index 2 = 1 ∧ ∃ call, s.calls = [call] ∧
    call.resumed = [1, 0] ∧ call.ended = [1] ∧ Correct call := by
  have created := (Run.start.next (.new none) rfl).next (.new none) rfl
  have ready := (created.next (.arrive 1) rfl).next (.arrive 0) rfl
  have resumed := ((ready.next .resume rfl).next .loop rfl).next .send rfl
  have ended := (resumed.next (.new (some 1)) rfl).next (.endCor 1) rfl
  have deleted := (ended.next (.receive 1) rfl).next .delete rfl
  have second := (deleted.next .loop rfl).next .send rfl
  have passed := ((second.next (.yield 0) rfl).next (.receive 0) rfl).next .loop rfl
  have holds := resume_schedules passed
  exact ⟨_, rfl, (holds.1 rfl).1 1 2 rfl, _, rfl, rfl, rfl, holds.2.1 _ (List.mem_singleton.mpr rfl)⟩

end Coroutine

end Xxlib.Go
