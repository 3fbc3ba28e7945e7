import Xxlib.Lib.Ring
import Xxlib.Lib.Rounding

/-! The ring buffer `Queue<T>` (`xx_queue.h`, `xx_queue.hpp`), for trivial element types.

A size of memory is a `size_t`, so a request for very much memory wraps around to one for
little. A copy that does not fit into its target, and an allocation that an assertion of
`Alloc` stops, have no result.
-/

set_option autoImplicit false

namespace Xxlib.Uv4

/-! ## Sizes of memory -/

def sizeofMemHeader : Nat := 8

/-- The bit `_BitScanReverse64` finds. -/
def calc2n (n : Nat) : Nat := n.log2

def round2n (n : Nat) : Nat := if 1 <<< calc2n n = n then n else (1 <<< calc2n n <<< 1) % 2 ^ 64

/-- The bytes that are requested for `capacity` elements. -/
def queueBytes (sizeofT capacity : Nat) : Nat :=
  (round2n ((capacity * sizeofT + sizeofMemHeader) % 2 ^ 64) + (2 ^ 64 - sizeofMemHeader)) % 2 ^ 64

def queueLen (sizeofT capacity : Nat) : Nat := queueBytes sizeofT capacity / sizeofT

/-- The assertions of `Alloc` and `Calc2n` about the size. -/
def Allocates (bytes : Nat) : Prop := bytes ≠ 0 ∧ (bytes + sizeofMemHeader) % 2 ^ 64 ≠ 0

instance (bytes : Nat) : Decidable (Allocates bytes) := inferInstanceAs (Decidable (_ ∧ _))

/-! ## The queue -/

structure Queue (α : Type) where
  buf : Nat → α
  bufLen : Nat
  head : Nat := 0
  tail : Nat := 0

namespace Queue

open Lib.Ring

variable {α : Type}

/-- The constructor. `alloc` is what the new block holds. -/
def create (sizeofT capacity : Nat) (alloc : Nat → α) : Queue α :=
  { buf := alloc, bufLen := queueLen sizeofT (if capacity < 8 then 8 else capacity) }

def count (q : Queue α) : Nat :=
  if q.head ≤ q.tail then q.tail - q.head else q.tail + (q.bufLen - q.head)

def empty (q : Queue α) : Bool := q.head == q.tail

/-- The index that `At` reads. -/
def place (q : Queue α) (idx : Nat) : Nat :=
  if q.head + idx < q.bufLen then q.head + idx else q.head + idx - q.bufLen

def at' (q : Queue α) (idx : Nat) : α := q.buf (q.place idx)

def top (q : Queue α) : α := q.buf q.head

def last (q : Queue α) : α := q.buf (if q.tail = 0 then q.bufLen - 1 else q.tail - 1)

def pop (q : Queue α) : Queue α := { q with head := if q.head + 1 = q.bufLen then 0 else q.head + 1 }

/-- Below zero `tail` goes on at the end. -/
def popLast (q : Queue α) : Queue α := { q with tail := if q.tail = 0 then q.bufLen - 1 else q.tail - 1 }

def clear (q : Queue α) : Queue α := if q.head = q.tail then q else { q with head := 0, tail := 0 }

def popMulti (q : Queue α) (count : Nat) : Nat × Queue α :=
  if count ≤ 0 then (0, q)
  else if q.count ≤ count then (q.count, q.clear)
  else if q.head < q.tail then (count, { q with head := q.head + count })
  else if count < q.bufLen - q.head then (count, { q with head := q.head + count })
  else (count, { q with head := count - (q.bufLen - q.head) })

def tryPop (q : Queue α) : Option α × Queue α := if q.head = q.tail then (none, q) else (some q.top, q.pop)

/-- The number of elements that `Reserve` copies. If the queue is empty this is the whole buffer. -/
def copied (q : Queue α) (dataLen : Nat) : Nat := if q.head < q.tail then dataLen else (q.bufLen - q.head) + q.tail

/-- The new block behind the copies of `Reserve`. -/
def copy (q : Queue α) (dataLen : Nat) (alloc : Nat → α) : Nat → α := fun i =>
  if q.head < q.tail then if i < dataLen then q.buf (q.head + i) else alloc i
  else if i < q.bufLen - q.head then q.buf (q.head + i)
  else if i < (q.bufLen - q.head) + q.tail then q.buf (i - (q.bufLen - q.head))
  else alloc i

def reserve (sizeofT : Nat) (alloc : Nat → α) (capacity : Nat) (afterPush : Bool) (q : Queue α) :
    Option (Queue α) :=
  if capacity ≤ q.bufLen then some q
  else
    let dataLen := if afterPush then q.bufLen else q.count
    if Allocates (queueBytes sizeofT capacity) ∧ q.copied dataLen ≤ queueLen sizeofT capacity then
      some ⟨q.copy dataLen alloc, queueLen sizeofT capacity, 0, dataLen⟩
    else none

/-- `Emplace` before it looks whether there is space left. -/
def pushed (q : Queue α) (value : α) : Queue α :=
  { q with buf := Function.update q.buf q.tail value, tail := if q.tail + 1 = q.bufLen then 0 else q.tail + 1 }

/-- The first answer is the index that the returned reference is for. -/
def emplace (sizeofT : Nat) (alloc : Nat → α) (value : α) (q : Queue α) : Option (Nat × Queue α) :=
  if (q.pushed value).tail = q.head then
    ((q.pushed value).reserve sizeofT alloc (q.bufLen * 2 % 2 ^ 64) true).map fun grown => (q.bufLen - 1, grown)
  else some (q.tail, q.pushed value)

/-! ## Sequences and runs -/

/-- A call. `alloc` is what a new block holds, should the call need one. -/
inductive Op (α : Type) where
  | emplace (value : α) (alloc : Nat → α)
  | pop
  | popLast
  | popMulti (count : Nat)
  | tryPop
  | clear
  | reserve (capacity : Nat) (alloc : Nat → α)

inductive Reply (α : Type) where
  | done
  | index (idx : Nat)
  | number (count : Nat)
  | value (out : Option α)

def step (sizeofT : Nat) : Op α → Queue α → Option (Reply α × Queue α)
  | .emplace value alloc, q => (q.emplace sizeofT alloc value).map fun result => (.index result.1, result.2)
  | .pop, q => some (.done, q.pop)
  | .popLast, q => some (.done, q.popLast)
  | .popMulti count, q => some (.number (q.popMulti count).1, (q.popMulti count).2)
  | .tryPop, q => some (.value q.tryPop.1, q.tryPop.2)
  | .clear, q => some (.done, q.clear)
  | .reserve capacity alloc, q => (q.reserve sizeofT alloc capacity false).map fun grown => (.done, grown)

/-- What a call makes of the sequence. -/
def seqStep (xs : List α) : Op α → List α
  | .emplace value _ => xs ++ [value]
  | .pop => xs.tail
  | .popLast => xs.dropLast
  | .popMulti count => xs.drop count
  | .tryPop => xs.tail
  | .clear => []
  | .reserve _ _ => xs

/-- What the assertions of the call ask for. -/
def Allowed (xs : List α) : Op α → Prop
  | .pop => xs ≠ []
  | .popLast => xs ≠ []
  | .reserve capacity _ => 0 < capacity
  | _ => True

/-- The size of a block for `capacity` elements can be rounded up to a `size_t`. -/
def Fits (sizeofT capacity : Nat) : Prop := capacity * sizeofT + sizeofMemHeader ≤ 2 ^ 63

instance (sizeofT capacity : Nat) : Decidable (Fits sizeofT capacity) := Nat.decLe _ _

/-- If the call needs a new block, its size is a `size_t`. -/
def Roomy (sizeofT : Nat) (q : Queue α) (xs : List α) : Op α → Prop
  | .emplace _ _ => xs.length + 1 = q.bufLen → Fits sizeofT (q.bufLen * 2)
  | .reserve capacity _ => q.bufLen < capacity → Fits sizeofT capacity
  | _ => True

/-- The states a fresh queue gets into by calls that meet `guard`, with the sequence they add up to. -/
inductive Run (sizeofT : Nat) (guard : Queue α → List α → Op α → Prop) : Queue α → List α → Prop where
  | create (capacity : Nat) (alloc : Nat → α) (fits : Fits sizeofT (if capacity < 8 then 8 else capacity)) :
      Run sizeofT guard (create sizeofT capacity alloc) []
  | step {q q' : Queue α} {xs : List α} {reply : Reply α} (op : Op α) (before : Run sizeofT guard q xs)
      (meets : guard q xs op) (runs : step sizeofT op q = some (reply, q')) :
      Run sizeofT guard q' (seqStep xs op)

/-! ## The specification of a state -/

/-- The queue holds the sequence `xs`. -/
structure Holds (q : Queue α) (xs : List α) : Prop where
  head : q.head < q.bufLen
  tail : q.tail < q.bufLen
  count : q.count = xs.length
  at' : ∀ i < xs.length, some (q.at' i) = xs[i]?
  top : xs ≠ [] → some q.top = xs.head?
  last : xs ≠ [] → some q.last = xs.getLast?

/-- The answer of a call on a queue that held `xs`. -/
def Answers (q' : Queue α) (xs : List α) : Op α → Reply α → Prop
  | .emplace value _, .index idx => idx = q'.place xs.length ∧ q'.buf idx = value
  | .popMulti count, .number n => n = min count xs.length
  | .tryPop, .value out => out = xs.head?
  | .pop, .done => True
  | .popLast, .done => True
  | .clear, .done => True
  | .reserve _ _, .done => True
  | _, _ => False

/-- The call returns what it should, and leaves a queue that holds the new sequence. -/
def Meets (sizeofT : Nat) (q : Queue α) (xs : List α) (op : Op α) : Prop :=
  ∃ reply q', step sizeofT op q = some (reply, q') ∧ Answers q' xs op reply ∧ Holds q' (seqStep xs op)

/-! ## Blocks that are large enough -/

theorem round2n_bounds {n : Nat} (positive : 0 < n) (small : n ≤ 2 ^ 63) : n ≤ round2n n ∧ round2n n ≤ 2 ^ 63 :=
  Lib.roundUp_bounds positive small

theorem Fits.queueBytes {sizeofT capacity : Nat} (fits : Fits sizeofT capacity) :
    capacity * sizeofT ≤ queueBytes sizeofT capacity ∧
      (queueBytes sizeofT capacity + sizeofMemHeader) % 2 ^ 64 ≠ 0 := by
  unfold Fits at fits
  obtain ⟨large, small⟩ := round2n_bounds (Nat.lt_of_lt_of_le (by decide) (Nat.le_add_left _ _)) fits
  unfold Uv4.queueBytes
  rw [Nat.mod_eq_of_lt (by omega : capacity * sizeofT + sizeofMemHeader < 2 ^ 64)]
  simp only [sizeofMemHeader] at *
  omega

theorem Fits.queueLen {sizeofT capacity : Nat} (positive : 0 < sizeofT) (fits : Fits sizeofT capacity) :
    capacity ≤ queueLen sizeofT capacity := by
  unfold Uv4.queueLen
  rw [Nat.le_div_iff_mul_le positive]
  exact fits.queueBytes.1

/-- The length of a block that fits is again one that fits. -/
theorem Fits.queueLen_fits {sizeofT capacity : Nat} (fits : Fits sizeofT capacity) :
    Fits sizeofT (Uv4.queueLen sizeofT capacity) := by
  unfold Fits at fits ⊢
  obtain ⟨large, small⟩ := round2n_bounds (Nat.lt_of_lt_of_le (by decide) (Nat.le_add_left _ _)) fits
  have bytes : Uv4.queueBytes sizeofT capacity + sizeofMemHeader ≤ 2 ^ 63 := by
    unfold Uv4.queueBytes
    rw [Nat.mod_eq_of_lt (by omega : capacity * sizeofT + sizeofMemHeader < 2 ^ 64)]
    simp only [sizeofMemHeader] at *
    omega
  have covered : Uv4.queueLen sizeofT capacity * sizeofT ≤ Uv4.queueBytes sizeofT capacity := Nat.div_mul_le_self _ _
  omega

/-- A block twice as large is not rounded up beyond a `size_t`: `Alloc` stops before. -/
theorem Fits.of_allocates {sizeofT capacity : Nat} (fits : Fits sizeofT capacity)
    (allocates : Allocates (Uv4.queueBytes sizeofT (capacity * 2))) : Fits sizeofT (capacity * 2) := by
  by_contra large
  apply allocates.2
  unfold Fits at fits large
  have twice : capacity * 2 * sizeofT = capacity * sizeofT * 2 := Nat.mul_right_comm _ _ _
  have bit : calc2n (capacity * 2 * sizeofT + sizeofMemHeader) = 63 := by
    unfold calc2n
    simp only [sizeofMemHeader] at *
    rw [Nat.log2_eq_iff (by omega)]
    omega
  have rounded : round2n (capacity * 2 * sizeofT + sizeofMemHeader) = 0 := by
    unfold round2n
    rw [bit, if_neg (by omega)]
    rfl
  unfold Uv4.queueBytes
  simp only [sizeofMemHeader] at *
  have bytes : (capacity * 2 * sizeofT + 8) % 2 ^ 64 = capacity * 2 * sizeofT + 8 := Nat.mod_eq_of_lt (by omega)
  calc
    _ = ((0 + (2 ^ 64 - 8)) % 2 ^ 64 + 8) % 2 ^ 64 := by rw [bytes, rounded]
    _ = 0 := by decide

/-! ## Each call -/

/-- The sequence behind `head`, with a place to spare. -/
structure Represents (q : Queue α) (xs : List α) : Prop where
  head : q.head < q.bufLen
  room : xs.length < q.bufLen
  tail : q.tail = slot q.bufLen q.head xs.length
  contents : contents q.buf q.bufLen q.head xs.length = xs

section
variable {q : Queue α} {xs : List α} {sizeofT : Nat}

theorem Represents.count (represents : Represents q xs) : q.count = xs.length := by
  unfold Queue.count
  rw [represents.tail]
  exact slot_distance represents.head represents.room

theorem Represents.head_eq_tail_iff (represents : Represents q xs) : q.head = q.tail ↔ xs = [] := by
  have head := represents.head
  have room := represents.room
  rw [represents.tail, ← List.length_eq_zero_iff]
  unfold slot
  split <;> omega

theorem Represents.at' (represents : Represents q xs) {i : Nat} (inside : i < xs.length) :
    some (q.at' i) = xs[i]? := by
  have found : (Lib.Ring.contents q.buf q.bufLen q.head xs.length)[i]? = _ := contents_getElem? inside
  rw [represents.contents] at found
  exact found.symm

theorem Represents.holds (represents : Represents q xs) : Holds q xs := by
  have head := represents.head
  have room := represents.room
  refine ⟨head, ?tail, represents.count, fun i inside => represents.at' inside, ?top, ?last⟩
  case tail =>
    rw [represents.tail]
    exact slot_lt head (by omega)
  case top =>
    intro some
    have first := represents.at' (List.length_pos_iff.mpr some)
    rw [← List.head?_eq_getElem?] at first
    have same : q.place 0 = q.head := if_pos head
    rwa [Queue.at', same] at first
  case last =>
    intro some
    have positive := List.length_pos_iff.mpr some
    have found := represents.at' (i := xs.length - 1) (by omega)
    rw [← List.getLast?_eq_getElem?] at found
    have same : q.place (xs.length - 1) = if q.tail = 0 then q.bufLen - 1 else q.tail - 1 := by
      rw [represents.tail]
      unfold Queue.place slot
      split <;> split <;> split <;> omega
    rwa [Queue.at', same] at found

/-- Elements are taken from the front. -/
theorem Represents.drop (represents : Represents q xs) {n : Nat} (less : n ≤ xs.length) {head : Nat}
    (moved : head = slot q.bufLen q.head n) : Represents { q with head := head } (xs.drop n) := by
  have inside := represents.head
  have room := represents.room
  have length : (xs.drop n).length = xs.length - n := List.length_drop
  subst moved
  refine ⟨slot_lt inside (by omega), ?room, ?tail, ?contents⟩
  case room => exact Nat.lt_of_le_of_lt (by omega) room
  case tail =>
    rw [length, slot_slot inside (by omega), Nat.add_sub_cancel' less]
    exact represents.tail
  case contents =>
    rw [length, contents_drop inside (by omega) less, represents.contents]

theorem Represents.pop (represents : Represents q xs) (some : xs ≠ []) : Represents q.pop xs.tail := by
  have inside := represents.head
  rw [← List.drop_one]
  apply represents.drop (List.length_pos_iff.mpr some)
  unfold slot
  split <;> split <;> omega

theorem Represents.clear (represents : Represents q xs) : Represents q.clear [] := by
  have inside := represents.head
  unfold Queue.clear
  by_cases same : q.head = q.tail
  · rw [if_pos same]
    rwa [represents.head_eq_tail_iff.mp same] at represents
  · rw [if_neg same]
    have positive : 0 < q.bufLen := by omega
    exact ⟨positive, positive, (slot_zero positive).symm, rfl⟩

theorem Represents.popLast (represents : Represents q xs) (some : xs ≠ []) :
    Represents q.popLast xs.dropLast := by
  have inside := represents.head
  have room := represents.room
  have tail := represents.tail
  have positive := List.length_pos_iff.mpr some
  have length : xs.dropLast.length = xs.length - 1 := List.length_dropLast
  refine ⟨inside, Nat.lt_of_le_of_lt (by omega) room, ?tail, ?contents⟩
  case tail =>
    rw [length]
    unfold Queue.popLast slot at *
    simp only [tail]
    split <;> split <;> split <;> omega
  case contents =>
    have front : (Lib.Ring.contents q.buf q.bufLen q.head xs.length).take (xs.length - 1) = _ :=
      contents_take (Nat.sub_le xs.length 1)
    rw [represents.contents, ← List.dropLast_eq_take] at front
    rw [length]
    exact front.symm

theorem Represents.popMulti (represents : Represents q xs) (count : Nat) :
    (q.popMulti count).1 = min count xs.length ∧ Represents (q.popMulti count).2 (xs.drop count) := by
  have inside := represents.head
  have room := represents.room
  have tail := represents.tail
  unfold Queue.popMulti
  rw [represents.count]
  by_cases none : count ≤ 0
  · obtain rfl : count = 0 := by omega
    exact ⟨(Nat.zero_min _).symm, represents⟩
  · rw [if_neg none]
    by_cases all : xs.length ≤ count
    · rw [if_pos all, Nat.min_eq_right all, List.drop_of_length_le all]
      exact ⟨rfl, represents.clear⟩
    · rw [if_neg all, Nat.min_eq_left (by omega)]
      unfold slot at tail
      by_cases straight : q.head < q.tail
      · rw [if_pos straight]
        refine ⟨rfl, represents.drop (by omega) ?_⟩
        unfold slot
        split at tail <;> split <;> omega
      · rw [if_neg straight]
        by_cases front : count < q.bufLen - q.head
        · rw [if_pos front]
          exact ⟨rfl, represents.drop (by omega) (if_pos (by omega)).symm⟩
        · rw [if_neg front]
          refine ⟨rfl, represents.drop (by omega) ?_⟩
          unfold slot
          split <;> omega

theorem Represents.tryPop (represents : Represents q xs) :
    q.tryPop.1 = xs.head? ∧ Represents q.tryPop.2 xs.tail := by
  unfold Queue.tryPop
  by_cases same : q.head = q.tail
  · rw [if_pos same]
    obtain rfl := represents.head_eq_tail_iff.mp same
    exact ⟨rfl, represents⟩
  · rw [if_neg same]
    have some : xs ≠ [] := fun none => same (represents.head_eq_tail_iff.mpr none)
    exact ⟨represents.holds.top some, represents.pop some⟩

/-- What is copied is the sequence, also if it fills the whole buffer. -/
theorem copy_eq {n : Nat} (inside : q.head < q.bufLen) (room : n ≤ q.bufLen)
    (tail : q.tail = slot q.bufLen q.head n) (alloc : Nat → α) {i : Nat} (before : i < n) :
    q.copy n alloc i = q.buf (slot q.bufLen q.head i) := by
  unfold slot at tail ⊢
  unfold copy
  by_cases straight : q.head < q.tail
  · rw [if_pos straight, if_pos before, if_pos (by split at tail <;> omega)]
  · rw [if_neg straight]
    by_cases front : i < q.bufLen - q.head
    · rw [if_pos front, if_pos (by omega)]
    · rw [if_neg front, if_pos (by split at tail <;> omega), if_neg (by omega)]
      congr 1
      omega

theorem copied_le {n : Nat} (inside : q.head < q.bufLen) (room : n ≤ q.bufLen)
    (tail : q.tail = slot q.bufLen q.head n) : q.copied n ≤ q.bufLen := by
  unfold slot at tail
  unfold copied
  split at tail <;> split <;> omega

/-- A larger block takes over the sequence. -/
theorem reserve_grows (q : Queue α) (xs : List α) (positive : 0 < sizeofT) {capacity : Nat}
    (fits : Fits sizeofT capacity) (larger : q.bufLen < capacity) (inside : q.head < q.bufLen)
    (room : xs.length ≤ q.bufLen)
    (tail : q.tail = slot q.bufLen q.head xs.length)
    (contents : contents q.buf q.bufLen q.head xs.length = xs) (afterPush : Bool)
    (dataLen : (if afterPush then q.bufLen else q.count) = xs.length) (alloc : Nat → α) :
    ∃ grown, q.reserve sizeofT alloc capacity afterPush = some grown ∧ Represents grown xs ∧ grown.head = 0 := by
  have enough := fits.queueLen positive
  have bytes := fits.queueBytes
  have some : queueBytes sizeofT capacity ≠ 0 := by
    have := Nat.mul_pos (by omega : 0 < capacity) positive
    omega
  have copied := copied_le inside room tail
  unfold reserve
  rw [if_neg (by omega), dataLen]
  simp only
  rw [if_pos ⟨⟨some, bytes.2⟩, by omega⟩]
  refine ⟨_, rfl, ⟨?head, ?room, ?tail, ?contents⟩, rfl⟩
  case head => exact Nat.lt_of_lt_of_le (Nat.zero_lt_of_lt larger) enough
  case room => exact Nat.lt_of_le_of_lt room (Nat.lt_of_lt_of_le larger enough)
  case tail =>
    unfold slot
    rw [if_pos (by simp only; omega), Nat.zero_add]
  case contents =>
    conv_rhs => rw [← contents]
    apply contents_congr
    intro i before
    have same : slot (queueLen sizeofT capacity) 0 i = i := by
      unfold slot
      rw [if_pos (by omega), Nat.zero_add]
    simp only [same]
    exact copy_eq inside room tail alloc before

theorem Represents.reserve (represents : Represents q xs) (positive : 0 < sizeofT) {capacity : Nat}
    (fits : q.bufLen < capacity → Fits sizeofT capacity) (alloc : Nat → α) :
    ∃ grown, q.reserve sizeofT alloc capacity false = some grown ∧ Represents grown xs := by
  by_cases larger : q.bufLen < capacity
  · have room := represents.room
    obtain ⟨grown, runs, represents', -⟩ := reserve_grows q xs positive (fits larger) larger represents.head
      (by omega) represents.tail represents.contents false represents.count alloc
    exact ⟨grown, runs, represents'⟩
  · exact ⟨q, if_pos (by omega), represents⟩

@[simp] theorem pushed_bufLen (q : Queue α) (value : α) : (q.pushed value).bufLen = q.bufLen := rfl

theorem Represents.pushed_tail (represents : Represents q xs) (value : α) :
    (q.pushed value).tail = slot q.bufLen q.head (xs.length + 1) := by
  have below : q.tail < q.bufLen := represents.holds.tail
  rw [← slot_slot represents.head represents.room, ← represents.tail]
  unfold pushed slot
  simp only
  split <;> split <;> omega

theorem Represents.pushed_contents (represents : Represents q xs) (value : α) :
    Lib.Ring.contents (q.pushed value).buf q.bufLen q.head (xs ++ [value]).length = xs ++ [value] := by
  unfold pushed
  rw [List.length_append, List.length_singleton, represents.tail, contents_push represents.room,
    represents.contents]

/-- The buffer is full behind the last place but one. -/
theorem Represents.pushed_full_iff (represents : Represents q xs) (value : α) :
    (q.pushed value).tail = q.head ↔ xs.length + 1 = q.bufLen := by
  have inside := represents.head
  have room := represents.room
  rw [represents.pushed_tail]
  unfold slot
  split <;> omega

theorem Represents.emplace (represents : Represents q xs) (positive : 0 < sizeofT)
    (fits : xs.length + 1 = q.bufLen → Fits sizeofT (q.bufLen * 2)) (alloc : Nat → α) (value : α) :
    ∃ idx q', q.emplace sizeofT alloc value = some (idx, q') ∧ Represents q' (xs ++ [value]) ∧
      idx = q'.place xs.length := by
  have inside := represents.head
  have room := represents.room
  have length : (xs ++ [value]).length = xs.length + 1 := List.length_append
  have tail : (q.pushed value).tail = slot q.bufLen q.head (xs ++ [value]).length := by
    rw [length]
    exact represents.pushed_tail value
  have contents := represents.pushed_contents value
  unfold Queue.emplace
  by_cases full : xs.length + 1 = q.bufLen
  · have fits := fits full
    have small : q.bufLen * 2 % 2 ^ 64 = q.bufLen * 2 := by
      apply Nat.mod_eq_of_lt
      have := Nat.le_mul_of_pos_right (q.bufLen * 2) positive
      unfold Fits at fits
      omega
    rw [if_pos ((represents.pushed_full_iff value).mpr full), small]
    obtain ⟨grown, runs, represents', zero⟩ := reserve_grows (q.pushed value) (xs ++ [value]) positive fits
      (by rw [pushed_bufLen]; omega) inside (by rw [length]; exact room) tail contents true (by rw [length]; exact full.symm)
      alloc
    rw [runs]
    refine ⟨_, grown, rfl, represents', ?_⟩
    have room' := represents'.room
    unfold place
    rw [zero, if_pos (by omega)]
    omega
  · rw [if_neg ((represents.pushed_full_iff value).not.mpr full)]
    have room' : (xs ++ [value]).length < (q.pushed value).bufLen := by
      rw [length, pushed_bufLen]
      omega
    exact ⟨_, _, rfl, ⟨inside, room', tail, contents⟩, represents.tail⟩

theorem reserve_allocates {capacity : Nat} {alloc : Nat → α} {afterPush : Bool} {grown : Queue α}
    (larger : q.bufLen < capacity) (runs : q.reserve sizeofT alloc capacity afterPush = some grown) :
    Allocates (queueBytes sizeofT capacity) ∧ grown.bufLen = queueLen sizeofT capacity := by
  unfold Queue.reserve at runs
  rw [if_neg (by omega)] at runs
  simp only at runs
  by_cases allowed : Allocates (queueBytes sizeofT capacity) ∧
      q.copied (if afterPush then q.bufLen else q.count) ≤ queueLen sizeofT capacity
  · rw [if_pos allowed] at runs
    exact ⟨allowed.1, (Option.some.inj runs) ▸ rfl⟩
  · rw [if_neg allowed] at runs
    cases runs

/-- An `Emplace` that `Alloc` does not stop. -/
theorem Represents.emplaced (represents : Represents q xs) (positive : 0 < sizeofT) (fits : Fits sizeofT q.bufLen)
    {alloc : Nat → α} {value : α} {idx : Nat} {q' : Queue α} (runs : q.emplace sizeofT alloc value = some (idx, q')) :
    Represents q' (xs ++ [value]) ∧ Fits sizeofT q'.bufLen := by
  have inside := represents.head
  have equation := runs
  unfold Queue.emplace at equation
  by_cases full : (q.pushed value).tail = q.head
  · have small : q.bufLen * 2 % 2 ^ 64 = q.bufLen * 2 := by
      apply Nat.mod_eq_of_lt
      have := Nat.le_mul_of_pos_right q.bufLen positive
      unfold Fits at fits
      simp only [sizeofMemHeader] at fits
      omega
    rw [if_pos full, small] at equation
    obtain ⟨grown, grows, same⟩ := Option.map_eq_some_iff.mp equation
    cases same
    obtain ⟨allocates, length⟩ := reserve_allocates (by rw [pushed_bufLen]; omega) grows
    have fits' := fits.of_allocates allocates
    obtain ⟨idx', q'', runs', represents', -⟩ := represents.emplace positive (fun _ => fits') alloc value
    cases runs.symm.trans runs'
    exact ⟨represents', length ▸ fits'.queueLen_fits⟩
  · rw [if_neg full] at equation
    cases equation
    obtain ⟨idx', q'', runs', represents', -⟩ := represents.emplace positive
      (fun last => (full ((represents.pushed_full_iff value).mpr last)).elim) alloc value
    cases runs.symm.trans runs'
    exact ⟨represents', fits⟩

/-! ## Runs -/

theorem Represents.meets (represents : Represents q xs) (positive : 0 < sizeofT) (op : Op α)
    (allowed : Allowed xs op) (roomy : Roomy sizeofT q xs op) :
    ∃ reply q', step sizeofT op q = some (reply, q') ∧ Answers q' xs op reply ∧ Represents q' (seqStep xs op) := by
  cases op with
  | emplace value alloc =>
    obtain ⟨idx, q', runs, represents', place⟩ := represents.emplace positive roomy alloc value
    have found := represents'.at' (i := xs.length) (by simp)
    rw [List.getElem?_concat_length, Queue.at', ← place] at found
    exact ⟨.index idx, q', by simp [step, runs], ⟨place, Option.some.inj found⟩, represents'⟩
  | pop => exact ⟨_, _, rfl, trivial, represents.pop allowed⟩
  | popLast => exact ⟨_, _, rfl, trivial, represents.popLast allowed⟩
  | popMulti count => exact ⟨_, _, rfl, represents.popMulti count⟩
  | tryPop => exact ⟨_, _, rfl, represents.tryPop⟩
  | clear => exact ⟨_, _, rfl, trivial, represents.clear⟩
  | reserve capacity alloc =>
    obtain ⟨grown, runs, represents'⟩ := represents.reserve positive roomy alloc
    exact ⟨.done, grown, by simp [step, runs], trivial, represents'⟩

theorem Run.represents (positive : 0 < sizeofT)
    (run : Run sizeofT (fun q xs op => Allowed xs op ∧ Roomy sizeofT q xs op) q xs) : Represents q xs := by
  induction run with
  | create capacity alloc fits =>
    have enough := fits.queueLen positive
    have eight : 8 ≤ if capacity < 8 then 8 else capacity := by
      split <;> omega
    have some : 0 < queueLen sizeofT (if capacity < 8 then 8 else capacity) := by omega
    exact ⟨some, some, (slot_zero some).symm, rfl⟩
  | step op before meets runs represents =>
    obtain ⟨reply, q', runs', -, represents'⟩ := represents.meets positive op meets.1 meets.2
    cases runs.symm.trans runs'
    exact represents'

/-- In a run whose calls ask for blocks of a size that a `size_t` can hold, the queue holds the sequence in
every state, and every such call meets its specification. -/
theorem run_holds (positive : 0 < sizeofT)
    (run : Run sizeofT (fun q xs op => Allowed xs op ∧ Roomy sizeofT q xs op) q xs) : Holds q xs ∧
      ∀ op, Allowed xs op → Roomy sizeofT q xs op → Meets sizeofT q xs op := by
  have represents := run.represents positive
  refine ⟨represents.holds, fun op allowed roomy => ?_⟩
  obtain ⟨reply, q', runs, answers, represents'⟩ := represents.meets positive op allowed roomy
  exact ⟨reply, q', runs, answers, represents'.holds⟩

end

/-- Four byte elements: a queue of two elements, behind a call of `Reserve` that makes it larger. -/
theorem run_holds_reserved : ∃ q : Queue Nat, q.bufLen = 30 ∧ Holds q [7, 9] := by
  have created : Run 4 (fun q xs op => Allowed xs op ∧ Roomy 4 q xs op) (create 4 0 fun _ => 0) [] :=
    .create 0 _ (by decide)
  have first := Run.step (.emplace 7 fun _ => 0) created ⟨trivial, fun full => absurd full (by decide)⟩ rfl
  have second := Run.step (.emplace 9 fun _ => 0) first ⟨trivial, fun full => absurd full (by decide)⟩ rfl
  have third := Run.step (.reserve 20 fun _ => 0) second ⟨Nat.succ_pos 19, fun _ => by decide⟩ rfl
  exact ⟨_, by decide, (run_holds (by decide) third).1⟩

/-- The size of a block for `2 ^ 62 + 4` elements of four bytes wraps around to 24 bytes. -/
theorem reserve_wraps : ¬ ∀ (q : Queue Nat) (xs : List Nat), Run 4 (fun _ xs op => Allowed xs op) q xs →
    Holds q xs ∧ ∀ op, Allowed xs op → Meets 4 q xs op := by
  intro always
  have created : Run 4 (fun _ xs op => Allowed xs op) (create 4 0 fun _ => 0) [] := .create 0 _ (by decide)
  obtain ⟨reply, q', runs, -, -⟩ :=
    (always _ _ created).2 (.reserve (2 ^ 62 + 4) fun _ => 0) (by decide : 0 < 2 ^ 62 + 4)
  have stops : (create 4 0 fun _ => 0 : Queue Nat).reserve 4 (fun _ => 0) (2 ^ 62 + 4) false = none := by
    decide
  rw [step, stops] at runs
  cases runs

end Queue

end Xxlib.Uv4
