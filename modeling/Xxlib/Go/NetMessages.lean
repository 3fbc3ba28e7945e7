import Xxlib.Lib.Slices

/-! The queue of messages that goroutines share (`NetMessages` of `src/xx/xx_netmessages.go`).

Every method holds the mutex from its first line to its last one, so that what several goroutines do is one sequence of calls.
What a caller gets from `Pops` is a slice of an array that the queue filled.
-/

set_option autoImplicit false

namespace Xxlib.Go

open Lib

/-- `recvs`, and all arrays that were ever made. Messages are pointers. -/
structure NetMessages (α : Type) where
  memory : List (List α)
  recvs : View

namespace NetMessages

section
variable {α : Type} (grow : Nat → Nat → Nat) (nil : α)

def content (ms : NetMessages α) : List α := ms.recvs.read ms.memory

/-- `make([]*NetMessage, 0, capacity)` -/
def fresh (memory : List (List α)) (capacity : Nat) : NetMessages α where
  memory := (View.make nil memory capacity).1
  recvs := (View.make nil memory capacity).2

def newNetMessages (capacity : Nat) : NetMessages α := fresh nil [] capacity

def pushs (ms : NetMessages α) (more : List α) : NetMessages α where
  memory := (ms.recvs.append grow nil ms.memory more).1
  recvs := (ms.recvs.append grow nil ms.memory more).2

def push (ms : NetMessages α) (m : α) : NetMessages α := ms.pushs grow nil [m]

/-- `none` is the `nil` that comes back from an empty queue. -/
def pop (ms : NetMessages α) : Option α × NetMessages α :=
  let count := ms.recvs.length
  if count = 0 then (none, ms)
  else
    let r := ms.content.head?
    if count = 1 then (r, { ms with recvs := ms.recvs.cut 0 }) else (r, { ms with recvs := ms.recvs.skip 1 })

def pops (ms : NetMessages α) : Option View × NetMessages α :=
  if ms.recvs.length = 0 then (none, ms)
  else
    let r := ms.recvs
    (some r, fresh nil ms.memory (r.capacity ms.memory))

def clear (ms : NetMessages α) : NetMessages α := { ms with recvs := ms.recvs.cut 0 }

end

/-! ## Any sequence of calls -/

inductive Call (α : Type) where
  | push (m : α)
  | pushs (more : List α)
  | pop
  | pops
  | clear

/-- The queue and what has happened: which messages came in, and which left, to a caller or by `Clear`. `slices` are those that
callers got, with what was in them. -/
structure Traffic (α : Type) where
  queue : NetMessages α
  pushed : List α := []
  left : List (α × Bool) := []
  slices : List (View × List α) := []

section
variable {α : Type} (grow : Nat → Nat → Nat) (nil : α)

def Traffic.step (s : Traffic α) : Call α → Traffic α
  | .push m => { s with queue := s.queue.push grow nil m, pushed := s.pushed ++ [m] }
  | .pushs more => { s with queue := s.queue.pushs grow nil more, pushed := s.pushed ++ more }
  | .pop => { s with queue := s.queue.pop.2, left := s.left ++ s.queue.pop.1.toList.map (·, true) }
  | .pops =>
      { s with
        queue := (s.queue.pops nil).2
        left := s.left ++ ((s.queue.pops nil).1.toList.flatMap (View.read s.queue.memory)).map (·, true)
        slices := s.slices ++ (s.queue.pops nil).1.toList.map fun r => (r, r.read s.queue.memory) }
  | .clear => { s with queue := s.queue.clear, left := s.left ++ s.queue.content.map (·, false) }

def Traffic.run (capacity : Nat) (calls : List (Call α)) : Traffic α :=
  calls.foldl (Traffic.step grow nil) { queue := newNetMessages nil capacity }

end

/-- The arrays of the callers, and that of the queue. -/
def Traffic.arrays {α : Type} (s : Traffic α) : List Nat := (s.slices.map fun slice => slice.1.array) ++ [s.queue.recvs.array]

/-- No message is lost, doubled or overtaken, and what callers got is not written again. -/
structure Orderly {α : Type} (s : Traffic α) : Prop where
  within : s.queue.recvs.Within s.queue.memory
  order : s.left.map Prod.fst ++ s.queue.content = s.pushed
  kept : ∀ slice ∈ s.slices, slice.1.Within s.queue.memory ∧ slice.1.read s.queue.memory = slice.2
  arrays : s.arrays.Pairwise (· < ·)

section
variable {α : Type} {s : Traffic α} {grow : Nat → Nat → Nat} {nil : α}

/-- What callers got lies in earlier arrays than that of the queue. -/
theorem Orderly.earlier (orderly : Orderly s) {slice : View × List α} (member : slice ∈ s.slices) :
    slice.1.array < s.queue.recvs.array :=
  (List.pairwise_append.mp orderly.arrays).2.2 _ (List.mem_map_of_mem member) _ List.mem_cons_self

theorem arrays_pairwise (before : (s.slices.map fun slice => slice.1.array).Pairwise (· < ·))
    (later : ∀ slice ∈ s.slices, slice.1.array < s.queue.recvs.array) : s.arrays.Pairwise (· < ·) := by
  refine List.pairwise_append.mpr ⟨before, List.pairwise_singleton _ _, fun array member last same => ?_⟩
  obtain ⟨slice, there, rfl⟩ := List.mem_map.mp member
  rw [List.mem_singleton.mp same]
  exact later slice there

theorem Orderly.pushs (orderly : Orderly s) (more : List α) : Orderly (s.step grow nil (.pushs more)) := by
  obtain ⟨within, read⟩ := orderly.within.append grow nil more
  have untouched (slice : View × List α) (member : slice ∈ s.slices) :=
    (orderly.kept slice member).1.earlier (orderly.earlier member) grow nil more
  refine ⟨within, ?_, fun slice member => ?_, ?_⟩
  · have content : (s.queue.pushs grow nil more).content = s.queue.content ++ more := read
    change _ ++ (s.queue.pushs grow nil more).content = _ ++ more
    rw [content, ← orderly.order, List.append_assoc]
    rfl
  · obtain ⟨⟨there, same⟩, -⟩ := untouched slice member
    exact ⟨there, same.trans (orderly.kept slice member).2⟩
  · exact arrays_pairwise (List.pairwise_append.mp orderly.arrays).1 fun slice member => (untouched slice member).2

/-- The queue goes on in the same array. -/
theorem Orderly.rest (orderly : Orderly s) {recvs : View} {left : List (α × Bool)} (array : recvs.array = s.queue.recvs.array)
    (within : recvs.Within s.queue.memory) (order : left.map Prod.fst ++ recvs.read s.queue.memory = s.queue.content) :
    Orderly { s with queue := { s.queue with recvs := recvs }, left := s.left ++ left } := by
  refine ⟨within, ?_, orderly.kept, ?_⟩
  · change (s.left ++ left).map Prod.fst ++ recvs.read s.queue.memory = s.pushed
    rw [List.map_append, List.append_assoc, order, orderly.order]
  · unfold Traffic.arrays
    dsimp only
    rw [array]
    exact orderly.arrays

theorem Orderly.clear (orderly : Orderly s) : Orderly (s.step grow nil .clear) := by
  refine orderly.rest rfl (orderly.within.cut (Nat.zero_le _)) ?_
  rw [View.read_cut (Nat.zero_le _), List.take_zero, List.append_nil, List.map_map]
  exact List.map_id _

theorem Orderly.pop (orderly : Orderly s) : Orderly (s.step grow nil .pop) := by
  have length : s.queue.content.length = s.queue.recvs.length := orderly.within.length_read
  unfold Traffic.step NetMessages.pop
  dsimp only
  split
  next none => exact orderly.rest rfl orderly.within rfl
  next some =>
    obtain ⟨m, rest, content⟩ := List.exists_cons_of_ne_nil (List.length_pos_iff.mp (by omega : 0 < s.queue.content.length))
    have front : s.queue.recvs.read s.queue.memory = m :: rest := content
    rw [content] at length ⊢
    split
    next one =>
      refine orderly.rest rfl (orderly.within.cut (Nat.zero_le _)) ?_
      rw [one, List.length_cons, Nat.succ_inj, List.length_eq_zero_iff] at length
      rw [View.read_cut (Nat.zero_le _), content, length]
      rfl
    next =>
      refine orderly.rest rfl (orderly.within.skip (Nat.one_le_iff_ne_zero.mpr some)) ?_
      rw [View.read_skip, front, content]
      rfl

theorem Orderly.pops (orderly : Orderly s) : Orderly (s.step grow nil .pops) := by
  unfold Traffic.step NetMessages.pops
  dsimp only
  split
  next none =>
    rw [Option.toList_none, List.map_nil, List.append_nil]
    exact orderly.rest rfl orderly.within rfl
  next some =>
    have content : (fresh nil s.queue.memory (s.queue.recvs.capacity s.queue.memory)).content = [] := View.read_make _
    have held (slice : View × List α) (member : slice ∈ s.slices ++ [(s.queue.recvs, s.queue.recvs.read s.queue.memory)]) :
        slice.1.Within s.queue.memory ∧ slice.1.read s.queue.memory = slice.2 := by
      rcases List.mem_append.mp member with old | new
      · exact orderly.kept slice old
      · rw [List.mem_singleton.mp new]
        exact ⟨orderly.within, rfl⟩
    have untouched (slice : View × List α) (member : slice ∈ s.slices ++ [(s.queue.recvs, s.queue.recvs.read s.queue.memory)]) :=
      (held slice member).1.make nil (s.queue.recvs.capacity s.queue.memory)
    refine ⟨View.make_within _, ?_, fun slice member => ?_, ?_⟩
    · dsimp only
      rw [content, ← orderly.order, Option.toList_some, List.flatMap_singleton, List.map_append, List.map_map, List.append_nil]
      exact congrArg _ (List.map_id _)
    · obtain ⟨there, same, -⟩ := untouched slice member
      exact ⟨there, same.trans (held slice member).2⟩
    · refine arrays_pairwise ?_ fun slice member => (untouched slice member).2.2
      dsimp only
      rw [Option.toList_some, List.map_singleton, List.map_append, List.map_singleton]
      exact orderly.arrays

theorem Orderly.step (orderly : Orderly s) (call : Call α) : Orderly (s.step grow nil call) := by
  cases call with
  | push m => exact orderly.pushs [m]
  | pushs more => exact orderly.pushs more
  | pop => exact orderly.pop
  | pops => exact orderly.pops
  | clear => exact orderly.clear

theorem Orderly.steps (orderly : Orderly s) (calls : List (Call α)) : Orderly (calls.foldl (Traffic.step grow nil) s) := by
  induction calls generalizing s with
  | nil => exact orderly
  | cons call calls ih => exact ih (orderly.step call)

theorem orderly_run (grow : Nat → Nat → Nat) (nil : α) (capacity : Nat) (calls : List (Call α)) :
    Orderly (Traffic.run grow nil capacity calls) := by
  have start : Orderly { queue := newNetMessages nil capacity } :=
    ⟨View.make_within _, congrArg _ (View.read_make _), nofun, List.pairwise_singleton _ _⟩
  exact start.steps calls

/-- Whatever the goroutines call, and however arrays grow: what left the queue and what is in it is what came in, in this order,
every slice that a caller got still has what it had, and neither two callers nor a caller and the queue share an array. -/
theorem Traffic.run_fifo (grow : Nat → Nat → Nat) (nil : α) (capacity : Nat) (calls : List (Call α)) :
    (Traffic.run grow nil capacity calls).left.map Prod.fst ++ (Traffic.run grow nil capacity calls).queue.content =
      (Traffic.run grow nil capacity calls).pushed ∧
    (∀ slice ∈ (Traffic.run grow nil capacity calls).slices,
      slice.1.read (Traffic.run grow nil capacity calls).queue.memory = slice.2) ∧
    (Traffic.run grow nil capacity calls).arrays.Nodup := by
  have orderly := orderly_run grow nil capacity calls
  exact ⟨orderly.order, fun slice member => (orderly.kept slice member).2, orderly.arrays.imp Nat.ne_of_lt⟩

end

end NetMessages

end Xxlib.Go
