import Xxlib.Lib.Lifetime
import Xxlib.Uv4.Queue

/-! `Queue<T>` (`xx_queue.hpp`) for element types with a constructor and a destructor.

Only `head` and `tail` tell where there are elements. A place is a block of memory and an index, and a queue that grows
goes on in a new block.
-/

set_option autoImplicit false

namespace Xxlib.Uv4

open Lib Lib.Ring

/-- The places of the elements of a queue. -/
structure LiveQueue where
  life : Lifetimes (Nat × Nat) := {}
  block : Nat := 0
  bufLen : Nat
  head : Nat := 0
  tail : Nat := 0

namespace LiveQueue

/-- What a program must not do with its elements, a place outside of the block, and an assertion of `Alloc`. -/
inductive Fault where
  | lifetime (fault : LifetimeFault)
  | outside
  | assertion
  deriving DecidableEq

def create (sizeofT capacity : Nat) : LiveQueue :=
  { bufLen := queueLen sizeofT (if capacity < 8 then 8 else capacity) }

def count (q : LiveQueue) : Nat :=
  if q.head ≤ q.tail then q.tail - q.head else q.tail + (q.bufLen - q.head)

/-- `for (i = first; i < last; ++i)` -/
def places (q : LiveQueue) (first last : Nat) : List (Nat × Nat) :=
  (List.range' first (last - first)).map fun i => (q.block, i)

/-- What `change` does to the elements. -/
def alter (q : LiveQueue) (change : Lifetimes (Nat × Nat) → Except LifetimeFault (Lifetimes (Nat × Nat))) :
    Except Fault LiveQueue :=
  match change q.life with
  | .ok life => .ok { q with life }
  | .error fault => .error (.lifetime fault)

def destroyAll (places : List (Nat × Nat)) (q : LiveQueue) : Except Fault LiveQueue := q.alter (·.destroyAll places)

def pop (q : LiveQueue) : Except Fault LiveQueue := do
  let q ← q.alter (·.destroy (q.block, q.head))
  return { q with head := if q.head + 1 = q.bufLen then 0 else q.head + 1 }

/-- The element at `tail` is destroyed, not the one before. -/
def popLast (q : LiveQueue) : Except Fault LiveQueue := do
  let q ← q.alter (·.destroy (q.block, q.tail))
  return { q with tail := if q.tail = 0 then q.bufLen - 1 else q.tail - 1 }

def clear (q : LiveQueue) : Except Fault LiveQueue := do
  if q.head = q.tail then return q
  if q.head < q.tail then
    let q ← q.destroyAll (q.places q.head q.tail)
    return { q with head := 0, tail := 0 }
  -- the elements wrap around the end of the block
  let q ← q.destroyAll (q.places 0 q.tail)
  let q ← q.destroyAll (q.places q.head q.bufLen)
  return { q with head := 0, tail := 0 }

def popMulti (count : Nat) (q : LiveQueue) : Except Fault LiveQueue := do
  if count ≤ 0 then return q
  if q.count ≤ count then q.clear
  else if q.head < q.tail then
    let q ← q.destroyAll (q.places q.head (q.head + count))
    return { q with head := q.head + count }
  else if count < q.bufLen - q.head then
    let q ← q.destroyAll (q.places q.head (q.head + count))
    return { q with head := q.head + count }
  else
    -- all up to the end of the block go, and the rest from its beginning
    let front := q.bufLen - q.head
    let q ← q.destroyAll (q.places q.head q.bufLen)
    let q ← q.destroyAll (q.places 0 (count - front))
    return { q with head := count - front }

/-- What `TryPop` moves out of the queue has to be an element. -/
def tryPop (q : LiveQueue) : Except Fault LiveQueue :=
  if q.head = q.tail then .ok q
  else
    match q.life.element (q.block, q.head) with
    | none => .error (.lifetime .noElement)
    | some _ => q.pop

/-- The places that `Reserve` moves, in order. -/
def sources (dataLen : Nat) (q : LiveQueue) : List (Nat × Nat) :=
  if q.head < q.tail then q.places q.head (q.head + dataLen) else q.places q.head q.bufLen ++ q.places 0 q.tail

def reserve (sizeofT capacity : Nat) (afterPush : Bool) (q : LiveQueue) : Except Fault LiveQueue := do
  if capacity ≤ q.bufLen then return q
  if ¬ Allocates (queueBytes sizeofT capacity) then throw .assertion
  -- behind a push `head` is `tail`, and `Count` would be zero
  let dataLen := if afterPush then q.bufLen else q.count
  let sources := q.sources dataLen
  if queueLen sizeofT capacity < sources.length then throw .outside
  let q ← q.alter (·.moveAll (sources.zipIdx.map fun source => (source.1, (q.block + 1, source.2))))
  return { q with block := q.block + 1, bufLen := queueLen sizeofT capacity, head := 0, tail := dataLen }

def emplace (sizeofT : Nat) (q : LiveQueue) : Except Fault LiveQueue := do
  if q.bufLen ≤ q.tail then throw .outside
  let q ← q.alter (·.construct (q.block, q.tail))
  let q := { q with tail := if q.tail + 1 = q.bufLen then 0 else q.tail + 1 }
  -- the last place has been taken, and the queue looks empty until it has grown
  if q.tail = q.head then q.reserve sizeofT (q.bufLen * 2 % 2 ^ 64) true
  else return q

inductive Op where
  | emplace
  | pop
  | popLast
  | popMulti (count : Nat)
  | tryPop
  | clear
  | reserve (capacity : Nat)

def step (sizeofT : Nat) (q : LiveQueue) : Op → Except Fault LiveQueue
  | .emplace => q.emplace sizeofT
  | .pop => q.pop
  | .popLast => q.popLast
  | .popMulti count => q.popMulti count
  | .tryPop => q.tryPop
  | .clear => q.clear
  | .reserve capacity => q.reserve sizeofT capacity false

/-- What the assertions of the call ask for. -/
def Allowed (q : LiveQueue) : Op → Prop
  | .pop | .popLast => q.head ≠ q.tail
  | .reserve capacity => 0 < capacity
  | .emplace | .popMulti _ | .tryPop | .clear => True

/-- A block that the call needs has a size that is a `size_t`. -/
def Roomy (sizeofT : Nat) (q : LiveQueue) : Op → Prop
  | .emplace => q.count + 1 = q.bufLen → Queue.Fits sizeofT (q.bufLen * 2)
  | .reserve capacity => q.bufLen < capacity → Queue.Fits sizeofT capacity
  | .pop | .popLast | .popMulti _ | .tryPop | .clear => True

/-- The call is not `PopLast`, and does not make an empty queue larger. -/
def Spares (q : LiveQueue) : Op → Prop
  | .popLast => False
  | .reserve capacity => q.bufLen < capacity → q.head ≠ q.tail
  | .emplace | .pop | .popMulti _ | .tryPop | .clear => True

/-- The states a fresh queue gets into by calls that meet `guard`. -/
inductive Run (sizeofT : Nat) (guard : LiveQueue → Op → Prop) : LiveQueue → Prop where
  | create (capacity : Nat) (fits : Queue.Fits sizeofT (if capacity < 8 then 8 else capacity)) :
      Run sizeofT guard (create sizeofT capacity)
  | step {q q' : LiveQueue} (op : Op) (before : Run sizeofT guard q) (meets : guard q op)
      (runs : q.step sizeofT op = .ok q') : Run sizeofT guard q'

/-! ## Places behind `head` -/

/-- The places of the first `n` elements. -/
def ring (q : LiveQueue) (n : Nat) : List (Nat × Nat) := contents (fun i => (q.block, i)) q.bufLen q.head n

section
variable {q : LiveQueue} {n k : Nat}

/-- Up to the end of the buffer. -/
theorem ring_straight (room : q.head + n ≤ q.bufLen) : q.ring n = q.places q.head (q.head + n) := by
  unfold ring contents places
  rw [Nat.add_sub_cancel_left, List.range'_eq_map_range, List.map_map]
  apply List.map_congr_left
  intro i member
  have before := List.mem_range.mp member
  simp only [slot, Function.comp]
  rw [if_pos (by omega)]

/-- Around the end of the buffer. -/
theorem ring_around (inside : q.head < q.bufLen) (around : q.bufLen - q.head ≤ n) :
    q.ring n = q.places q.head q.bufLen ++ q.places 0 (n - (q.bufLen - q.head)) := by
  have split : n = (q.bufLen - q.head) + (n - (q.bufLen - q.head)) := by omega
  unfold ring contents places
  conv_lhs => rw [split]
  rw [List.range_add, List.map_append, List.range'_eq_map_range, List.range'_eq_map_range, List.map_map, List.map_map,
    List.map_map]
  congr 1
  · apply List.map_congr_left
    intro i member
    have before := List.mem_range.mp member
    simp only [slot, Function.comp]
    rw [if_pos (by omega)]
  · rw [Nat.sub_zero]
    apply List.map_congr_left
    intro i member
    have before := List.mem_range.mp member
    simp only [slot, Function.comp]
    rw [if_neg (by omega)]
    congr 1
    omega

/-- The first `k` places, and the others behind them. -/
theorem ring_split (inside : q.head < q.bufLen) (room : n ≤ q.bufLen) (less : k ≤ n) :
    q.ring n = q.ring k ++ contents (fun i => (q.block, i)) q.bufLen (slot q.bufLen q.head k) (n - k) := by
  unfold ring
  rw [contents_drop inside room less, ← contents_take less, List.take_append_drop]

theorem ring_one (inside : q.head < q.bufLen) : q.ring 1 = [(q.block, q.head)] := by
  show [(q.block, slot q.bufLen q.head 0)] = _
  rw [slot_zero inside]

theorem ring_nodup (room : n ≤ q.bufLen) : (q.ring n).Nodup := by
  unfold ring contents
  refine List.Nodup.map_on ?_ List.nodup_range
  intro i first j second same
  have i_lt := List.mem_range.mp first
  have j_lt := List.mem_range.mp second
  exact slot_inj (by omega) (by omega) (Prod.mk.inj same).2

/-- What `Reserve` moves, if there is something. -/
theorem sources_eq (inside : q.head < q.bufLen) (some : 0 < n) (room : n ≤ q.bufLen)
    (tail : q.tail = slot q.bufLen q.head n) : q.sources n = q.ring n := by
  unfold sources
  unfold slot at tail
  by_cases straight : q.head + n < q.bufLen
  · rw [if_pos straight] at tail
    rw [if_pos (by omega), ring_straight (by omega)]
  · rw [if_neg straight] at tail
    rw [if_neg (by omega), ring_around inside (by omega), tail]
    congr 2
    omega

end

/-! ## Each call -/

/-- The queue has `n` elements behind `head`, and a place to spare. -/
structure Owns (q : LiveQueue) (n : Nat) : Prop where
  head : q.head < q.bufLen
  room : n < q.bufLen
  tail : q.tail = slot q.bufLen q.head n
  live : q.life.Live (q.ring n)

theorem alter_ok {q : LiveQueue} {change : Lifetimes (Nat × Nat) → Except LifetimeFault (Lifetimes (Nat × Nat))}
    {life : Lifetimes (Nat × Nat)} (runs : change q.life = .ok life) : q.alter change = .ok { q with life } := by
  unfold alter
  rw [runs]

theorem alter_error {q : LiveQueue} {change : Lifetimes (Nat × Nat) → Except LifetimeFault (Lifetimes (Nat × Nat))}
    {fault : LifetimeFault} (runs : change q.life = .error fault) : q.alter change = .error (.lifetime fault) := by
  unfold alter
  rw [runs]

section
variable {q : LiveQueue} {n : Nat} {sizeofT : Nat}

theorem Owns.count (owns : Owns q n) : q.count = n := by
  unfold LiveQueue.count
  rw [owns.tail]
  exact slot_distance owns.head owns.room

theorem Owns.head_eq_tail_iff (owns : Owns q n) : q.head = q.tail ↔ n = 0 := by
  have inside := owns.head
  have room := owns.room
  rw [owns.tail]
  unfold slot
  split <;> omega

/-- The first `k` elements are gone. -/
theorem Owns.drop (owns : Owns q n) {k : Nat} (less : k ≤ n) {life : Lifetimes (Nat × Nat)}
    (live : life.Live (contents (fun i => (q.block, i)) q.bufLen (slot q.bufLen q.head k) (n - k))) :
    Owns { q with life, head := slot q.bufLen q.head k } (n - k) := by
  have inside := owns.head
  have room := owns.room
  refine ⟨slot_lt inside (by omega), Nat.lt_of_le_of_lt (Nat.sub_le _ _) room, ?_, live⟩
  show q.tail = _
  rw [slot_slot inside (by omega), owns.tail]
  congr 1
  omega

theorem Owns.pop (owns : Owns q n) (some : 0 < n) : ∃ q', q.pop = .ok q' ∧ Owns q' (n - 1) := by
  have inside := owns.head
  have room := owns.room
  have live := owns.live
  rw [ring_split inside (by omega) (by omega : 1 ≤ n), ring_one inside] at live
  obtain ⟨life, destroys, live'⟩ := Lifetimes.Live.destroy live
  have next : (if q.head + 1 = q.bufLen then 0 else q.head + 1) = slot q.bufLen q.head 1 := by
    unfold slot
    split <;> split <;> omega
  refine ⟨{ q with life, head := slot q.bufLen q.head 1 }, ?_, owns.drop some live'⟩
  unfold LiveQueue.pop
  rw [alter_ok destroys]
  show Except.ok _ = _
  rw [next]

theorem Owns.empty {life : Lifetimes (Nat × Nat)} (some : 0 < q.bufLen) (live : life.Live []) :
    Owns { q with life, head := 0, tail := 0 } 0 :=
  ⟨some, some, (slot_zero some).symm, live⟩

theorem Owns.clear (owns : Owns q n) : ∃ q', q.clear = .ok q' ∧ Owns q' 0 := by
  have inside := owns.head
  have room := owns.room
  have tail := owns.tail
  have live := owns.live
  unfold LiveQueue.clear
  by_cases none : q.head = q.tail
  · rw [if_pos none]
    obtain rfl := owns.head_eq_tail_iff.mp none
    exact ⟨q, rfl, owns⟩
  · have nonzero := owns.head_eq_tail_iff.not.mp none
    rw [if_neg none]
    by_cases straight : q.head + n < q.bufLen
    · have ends : q.tail = q.head + n := by rw [tail, slot, if_pos straight]
      rw [ring_straight (by omega), ← List.append_nil (q.places _ _)] at live
      obtain ⟨life, destroys, live'⟩ := live.destroyAll
      refine ⟨{ q with life, head := 0, tail := 0 }, ?_, .empty (by omega) live'⟩
      rw [if_pos (by omega), ends, LiveQueue.destroyAll, alter_ok destroys]
      rfl
    · have ends : q.tail = n - (q.bufLen - q.head) := by
        rw [tail, slot, if_neg straight]
        omega
      rw [ring_around inside (by omega), ← ends] at live
      -- the elements at the beginning of the buffer are the last ones, and go first
      have turned := live.perm (List.perm_append_comm.trans (.of_eq (List.append_nil _).symm))
      rw [List.append_assoc] at turned
      obtain ⟨first, destroys, live₁⟩ := turned.destroyAll
      obtain ⟨second, destroys', live₂⟩ := live₁.destroyAll
      refine ⟨{ q with life := second, head := 0, tail := 0 }, ?_, .empty (by omega) live₂⟩
      rw [if_neg (by omega), LiveQueue.destroyAll, alter_ok destroys]
      show (LiveQueue.destroyAll (q.places q.head q.bufLen) { q with life := first }).bind _ = _
      rw [LiveQueue.destroyAll, alter_ok destroys']
      rfl

theorem Owns.popMulti (owns : Owns q n) (count : Nat) : ∃ q', q.popMulti count = .ok q' ∧ Owns q' (n - count) := by
  have inside := owns.head
  have room := owns.room
  have tail := owns.tail
  unfold LiveQueue.popMulti
  by_cases zero : count ≤ 0
  · rw [if_pos zero]
    obtain rfl := Nat.le_zero.mp zero
    exact ⟨q, rfl, owns⟩
  · rw [if_neg zero, owns.count]
    by_cases all : n ≤ count
    · rw [if_pos all, Nat.sub_eq_zero_of_le all]
      exact owns.clear
    · have live := owns.live
      rw [ring_split inside (by omega) (by omega : count ≤ n)] at live
      rw [if_neg all]
      by_cases straight : q.head + count < q.bufLen
      · have next : slot q.bufLen q.head count = q.head + count := if_pos straight
        rw [ring_straight (by omega)] at live
        obtain ⟨life, destroys, live'⟩ := live.destroyAll
        have dropped := owns.drop (by omega) live'
        rw [next] at dropped
        refine ⟨{ q with life, head := q.head + count }, ?_, dropped⟩
        -- both branches for a run of places without a gap
        have runs : (do
            let q ← q.destroyAll (q.places q.head (q.head + count))
            return { q with head := q.head + count } : Except Fault LiveQueue) =
              .ok { q with life, head := q.head + count } := by
          rw [LiveQueue.destroyAll, alter_ok destroys]
          rfl
        by_cases order : q.head < q.tail
        · rw [if_pos order]
          exact runs
        · rw [if_neg order, if_pos (by omega)]
          exact runs
      · have next : slot q.bufLen q.head count = count - (q.bufLen - q.head) := by
          rw [slot, if_neg straight]
          omega
        have order : ¬ q.head < q.tail := by
          rw [tail, slot, if_neg (by omega)]
          omega
        rw [ring_around inside (by omega), List.append_assoc] at live
        obtain ⟨first, destroys, live₁⟩ := live.destroyAll
        obtain ⟨second, destroys', live₂⟩ := live₁.destroyAll
        have dropped := owns.drop (by omega) live₂
        rw [next] at dropped
        refine ⟨{ q with life := second, head := count - (q.bufLen - q.head) }, ?_, dropped⟩
        rw [if_neg order, if_neg (by omega), LiveQueue.destroyAll, alter_ok destroys]
        show (LiveQueue.destroyAll (q.places 0 (count - (q.bufLen - q.head))) { q with life := first }).bind _ = _
        rw [LiveQueue.destroyAll, alter_ok destroys']
        rfl

theorem Owns.tryPop (owns : Owns q n) : ∃ q', q.tryPop = .ok q' ∧ Owns q' (n - 1) := by
  unfold LiveQueue.tryPop
  by_cases none : q.head = q.tail
  · rw [if_pos none]
    obtain rfl := owns.head_eq_tail_iff.mp none
    exact ⟨q, rfl, owns⟩
  · have some := Nat.pos_of_ne_zero (owns.head_eq_tail_iff.not.mp none)
    have first : (q.block, q.head) ∈ q.ring n := by
      rw [ring_split owns.head (Nat.le_of_lt owns.room) some, ring_one owns.head]
      exact List.mem_cons_self
    obtain ⟨e, found⟩ := owns.live.found first
    rw [if_neg none, found]
    exact owns.pop some

/-- The places of a block of its own, from its beginning on. -/
theorem moved_places (sources : List (Nat × Nat)) (block bufLen : Nat) (room : sources.length ≤ bufLen) :
    ((sources.zipIdx.map fun source => (source.1, (block, source.2))).map Prod.snd) =
      contents (fun i => (block, i)) bufLen 0 sources.length := by
  have indices : sources.zipIdx.map Prod.snd = List.range sources.length := by
    rw [List.zipIdx_map_snd, List.range_eq_range']
  unfold contents
  rw [← indices, List.map_map, List.map_map]
  apply List.map_congr_left
  rintro ⟨source, i⟩ member
  have before : i < sources.length := by
    have := List.mem_map_of_mem (f := Prod.snd) member
    rw [indices] at this
    exact List.mem_range.mp this
  simp only [Function.comp, slot]
  rw [if_pos (by omega), Nat.zero_add]

/-- All elements move to a larger block, also if they fill the whole buffer. -/
theorem reserve_grows (positive : 0 < sizeofT) (inside : q.head < q.bufLen) (some : 0 < n) (room : n ≤ q.bufLen)
    (tail : q.tail = slot q.bufLen q.head n) (live : q.life.Live (q.ring n)) {capacity : Nat}
    (fits : Queue.Fits sizeofT capacity) (larger : q.bufLen < capacity) {afterPush : Bool}
    (dataLen : (if afterPush then q.bufLen else q.count) = n) :
    ∃ q', q.reserve sizeofT capacity afterPush = .ok q' ∧ Owns q' n := by
  have enough := fits.queueLen positive
  have bytes := fits.queueBytes
  have allocates : Allocates (queueBytes sizeofT capacity) := by
    refine ⟨?_, bytes.2⟩
    have := Nat.mul_pos (by omega : 0 < capacity) positive
    omega
  have sources := sources_eq inside some room tail
  have length : (q.ring n).length = n := contents_length _ _ _ _
  have targets := moved_places (q.ring n) (q.block + 1) (queueLen sizeofT capacity) (by omega)
  have origins : ((q.ring n).zipIdx.map fun source => (source.1, (q.block + 1, source.2))).map Prod.fst = q.ring n := by
    rw [List.map_map]
    exact List.zipIdx_map_fst 0 _
  rw [length] at targets
  obtain ⟨life, moves, live'⟩ := Lifetimes.Live.moveAll
    ((q.ring n).zipIdx.map fun source => (source.1, (q.block + 1, source.2))) []
    (by rw [origins, List.append_nil]; exact live)
    (by
      rw [targets]
      exact ring_nodup (q := { q with block := q.block + 1, bufLen := queueLen sizeofT capacity, head := 0 }) (by
        show n ≤ queueLen sizeofT capacity
        omega))
    (by
      intro move member
      rw [origins, List.append_nil]
      obtain ⟨source, -, rfl⟩ := List.mem_map.mp member
      intro same
      obtain ⟨i, -, equal⟩ := List.mem_map.mp same
      have := (Prod.mk.inj equal).1
      omega)
  rw [targets, List.append_nil] at live'
  refine ⟨{ life, block := q.block + 1, bufLen := queueLen sizeofT capacity, head := 0, tail := n }, ?_, ?_⟩
  · unfold LiveQueue.reserve
    rw [if_neg (by omega), if_neg (not_not.mpr allocates), dataLen]
    simp only [sources]
    rw [if_neg (by omega), alter_ok moves]
    rfl
  · have larger : n < queueLen sizeofT capacity := by omega
    refine ⟨by show 0 < queueLen sizeofT capacity; omega, larger, ?_, live'⟩
    show n = slot (queueLen sizeofT capacity) 0 n
    rw [slot, if_pos (by omega), Nat.zero_add]

theorem Owns.reserve (owns : Owns q n) (positive : 0 < sizeofT) {capacity : Nat}
    (roomy : q.bufLen < capacity → Queue.Fits sizeofT capacity) (spares : q.bufLen < capacity → q.head ≠ q.tail) :
    ∃ q', q.reserve sizeofT capacity false = .ok q' ∧ Owns q' n := by
  by_cases larger : q.bufLen < capacity
  · have some := Nat.pos_of_ne_zero (owns.head_eq_tail_iff.not.mp (spares larger))
    exact reserve_grows positive owns.head some (Nat.le_of_lt owns.room) owns.tail owns.live (roomy larger) larger
      owns.count
  · refine ⟨q, ?_, owns⟩
    unfold LiveQueue.reserve
    rw [if_pos (by omega)]
    rfl

theorem Owns.emplace (owns : Owns q n) (positive : 0 < sizeofT)
    (roomy : q.count + 1 = q.bufLen → Queue.Fits sizeofT (q.bufLen * 2)) :
    ∃ q', q.emplace sizeofT = .ok q' ∧ Owns q' (n + 1) := by
  have inside := owns.head
  have room := owns.room
  have below : q.tail < q.bufLen := by
    rw [owns.tail]
    exact slot_lt inside (by omega)
  -- the place behind the last element is free
  have whole : q.ring (n + 1) = q.ring n ++ [(q.block, q.tail)] := by
    unfold ring contents
    rw [List.range_succ, List.map_append, owns.tail]
    rfl
  have free : (q.block, q.tail) ∉ q.ring n := by
    have distinct := ring_nodup (q := q) (n := n + 1) (by omega)
    rw [whole] at distinct
    intro member
    exact (List.nodup_append.mp distinct).2.2 _ member _ (List.mem_singleton.mpr rfl) rfl
  obtain ⟨life, constructs, live⟩ := owns.live.construct free
  have live := live.perm (List.perm_append_singleton _ _).symm
  rw [← whole] at live
  have next : (if q.tail + 1 = q.bufLen then 0 else q.tail + 1) = slot q.bufLen q.head (n + 1) := by
    rw [← slot_slot inside (by omega), ← owns.tail]
    unfold slot
    split <;> split <;> omega
  have runs : q.emplace sizeofT =
      if slot q.bufLen q.head (n + 1) = q.head then
        ({ q with life, tail := slot q.bufLen q.head (n + 1) } : LiveQueue).reserve sizeofT (q.bufLen * 2 % 2 ^ 64) true
      else .ok { q with life, tail := slot q.bufLen q.head (n + 1) } := by
    unfold LiveQueue.emplace
    rw [if_neg (by omega), alter_ok constructs, ← next]
    rfl
  rw [runs]
  by_cases full : n + 1 = q.bufLen
  · have fits := roomy (by rw [owns.count]; exact full)
    have small : q.bufLen * 2 % 2 ^ 64 = q.bufLen * 2 := by
      apply Nat.mod_eq_of_lt
      have := Nat.le_mul_of_pos_right (q.bufLen * 2) positive
      unfold Queue.Fits at fits
      omega
    have back : slot q.bufLen q.head (n + 1) = q.head := by
      unfold slot
      split <;> omega
    rw [if_pos back, small]
    exact reserve_grows (q := { q with life, tail := slot q.bufLen q.head (n + 1) }) positive inside (Nat.succ_pos n)
      (by show n + 1 ≤ q.bufLen; omega) rfl live fits (by show q.bufLen < q.bufLen * 2; omega) full.symm
  · have apart : slot q.bufLen q.head (n + 1) ≠ q.head := by
      unfold slot
      split <;> omega
    rw [if_neg apart]
    exact ⟨_, rfl, inside, by show n + 1 < q.bufLen; omega, rfl, live⟩

/-- There is no element at `tail`. -/
theorem Owns.popLast (owns : Owns q n) : q.popLast = .error (.lifetime .noElement) := by
  have empty : q.life.element (q.block, q.tail) = none := not_not.mp fun some => by
    obtain ⟨i, member, same⟩ := List.mem_map.mp ((owns.live.exactly _).mp some)
    have before := List.mem_range.mp member
    have room := owns.room
    have place := (Prod.mk.inj same).2
    rw [owns.tail] at place
    have := slot_inj (by omega) (by omega) place
    omega
  unfold LiveQueue.popLast
  rw [alter_error (Lifetimes.destroy_none empty)]
  rfl

/-- If there is no element, the whole buffer is taken for elements. -/
theorem Owns.reserve_empty (owns : Owns q 0) {capacity : Nat} (larger : q.bufLen < capacity) :
    ¬ ∃ q', q.reserve sizeofT capacity false = .ok q' := by
  have inside := owns.head
  have same := owns.head_eq_tail_iff.mpr rfl
  have first : q.sources q.count = (q.block, q.head) ::
      ((List.range' (q.head + 1) (q.bufLen - q.head - 1)).map (fun i => (q.block, i)) ++ q.places 0 q.tail) := by
    unfold sources places
    obtain ⟨rest, length⟩ : ∃ rest, q.bufLen - q.head = rest + 1 := ⟨q.bufLen - q.head - 1, by omega⟩
    rw [if_neg (by omega), length, List.range'_succ, List.map_cons, List.cons_append, Nat.add_sub_cancel]
  have empty : q.life.element (q.block, q.head) = none :=
    not_not.mp fun some => absurd ((owns.live.exactly _).mp some) List.not_mem_nil
  rintro ⟨q', runs⟩
  unfold LiveQueue.reserve at runs
  rw [if_neg (by omega)] at runs
  by_cases allocates : Allocates (queueBytes sizeofT capacity)
  · rw [if_neg (not_not.mpr allocates)] at runs
    simp only [Bool.false_eq_true, if_false, first, List.zipIdx_cons, List.map_cons] at runs
    rw [alter_error (Lifetimes.moveAll_none empty _)] at runs
    split at runs <;> cases runs
  · rw [if_pos allocates] at runs
    cases runs

/-! ## Whole runs -/

/-- What the guard of a run asks for. -/
def Meets (sizeofT : Nat) (q : LiveQueue) (op : Op) : Prop := Allowed q op ∧ Roomy sizeofT q op ∧ Spares q op

theorem Owns.step (owns : Owns q n) (positive : 0 < sizeofT) {op : Op} (meets : Meets sizeofT q op) :
    ∃ q' n', q.step sizeofT op = .ok q' ∧ Owns q' n' := by
  obtain ⟨allowed, roomy, spares⟩ := meets
  cases op with
  | emplace =>
    obtain ⟨q', runs, owns'⟩ := owns.emplace positive roomy
    exact ⟨q', _, runs, owns'⟩
  | pop =>
    have some := Nat.pos_of_ne_zero (owns.head_eq_tail_iff.not.mp allowed)
    obtain ⟨q', runs, owns'⟩ := owns.pop some
    exact ⟨q', _, runs, owns'⟩
  | popLast => exact spares.elim
  | popMulti count =>
    obtain ⟨q', runs, owns'⟩ := owns.popMulti count
    exact ⟨q', _, runs, owns'⟩
  | tryPop =>
    obtain ⟨q', runs, owns'⟩ := owns.tryPop
    exact ⟨q', _, runs, owns'⟩
  | clear =>
    obtain ⟨q', runs, owns'⟩ := owns.clear
    exact ⟨q', _, runs, owns'⟩
  | reserve capacity =>
    obtain ⟨q', runs, owns'⟩ := owns.reserve positive roomy spares
    exact ⟨q', _, runs, owns'⟩

theorem Run.owns (positive : 0 < sizeofT) (run : Run sizeofT (Meets sizeofT) q) : ∃ n, Owns q n := by
  induction run with
  | create capacity fits =>
    have enough := fits.queueLen positive
    have eight : 8 ≤ if capacity < 8 then 8 else capacity := by
      split <;> omega
    have some : 0 < (LiveQueue.create sizeofT capacity).bufLen := Nat.lt_of_lt_of_le (by omega) enough
    exact ⟨0, .empty some .start⟩
  | step op before meets runs owns =>
    obtain ⟨n, owns⟩ := owns
    obtain ⟨q', n', runs', owns'⟩ := owns.step positive meets
    cases runs.symm.trans runs'
    exact ⟨n', owns'⟩

/-- A call works on elements only, exactly if it is neither `PopLast` nor makes an empty queue larger. -/
theorem Owns.step_iff (owns : Owns q n) (positive : 0 < sizeofT) {op : Op} (allowed : Allowed q op)
    (roomy : Roomy sizeofT q op) : (∃ q', q.step sizeofT op = .ok q') ↔ Spares q op := by
  constructor
  · rintro ⟨q', runs⟩
    cases op with
    | popLast =>
      have fails : q.step sizeofT .popLast = .error (.lifetime .noElement) := owns.popLast
      cases fails.symm.trans runs
    | reserve capacity =>
      intro larger same
      obtain rfl := owns.head_eq_tail_iff.mp same
      exact owns.reserve_empty larger ⟨q', runs⟩
    | _ => trivial
  · intro spares
    obtain ⟨q', n', runs, -⟩ := owns.step positive ⟨allowed, roomy, spares⟩
    exact ⟨q', runs⟩

/-- In a run whose calls meet the condition a further call works on elements only, exactly if it meets it as well, and
when the queue is destroyed every element that was ever made has been destroyed once. -/
theorem elements_destroyed_once (positive : 0 < sizeofT) (run : Run sizeofT (Meets sizeofT) q) :
    (∀ op, Allowed q op → Roomy sizeofT q op → ((∃ q', q.step sizeofT op = .ok q') ↔ Spares q op)) ∧
      ∃ q', q.clear = .ok q' ∧ (∀ place, q'.life.element place = none) ∧
        q'.life.destroyed.Perm (List.range q'.life.made) := by
  obtain ⟨n, owns⟩ := run.owns positive
  constructor
  · intro op allowed roomy
    exact owns.step_iff positive allowed roomy
  · obtain ⟨q', runs, owns'⟩ := owns.clear
    have live : q'.life.Live [] := owns'.live
    refine ⟨q', runs, fun place => ?_, live.done⟩
    by_contra some
    exact absurd ((live.exactly place).mp some) List.not_mem_nil

end

/-- Eight byte elements: three of them, of which one is taken out, in a queue that is made larger then. -/
theorem elements_destroyed_three : ∃ q : LiveQueue, q.bufLen = 31 ∧ q.life.destroyed = [0, 1, 2] ∧ q.life.made = 5 ∧
    ∃ q', q.clear = .ok q' ∧ q'.life.destroyed.Perm (List.range q'.life.made) := by
  have created : Run 8 (Meets 8) (create 8 0) := .create 0 (by decide)
  have first := created.step .emplace ⟨trivial, fun full => absurd full (by decide), trivial⟩ rfl
  have second := first.step .emplace ⟨trivial, fun full => absurd full (by decide), trivial⟩ rfl
  have third := second.step .emplace ⟨trivial, fun full => absurd full (by decide), trivial⟩ rfl
  have taken := third.step .tryPop ⟨trivial, trivial, trivial⟩ rfl
  have grown := taken.step (.reserve 20) ⟨show 0 < 20 by decide, fun _ => by decide, fun _ => by decide⟩ rfl
  obtain ⟨-, q', runs, -, once⟩ := elements_destroyed_once (by decide) grown
  exact ⟨_, rfl, rfl, rfl, q', runs, once⟩

/-- `PopLast` destroys an element behind the last one, where there is none. -/
theorem popLast_no_element : ¬ ∀ q : LiveQueue, Run 8 (fun q op => Allowed q op ∧ Roomy 8 q op) q →
    ∀ op, Allowed q op → Roomy 8 q op → ∃ q', q.step 8 op = .ok q' := by
  intro always
  have created : Run 8 (fun q op => Allowed q op ∧ Roomy 8 q op) (create 8 0) := .create 0 (by decide)
  have pushed := created.step .emplace ⟨trivial, fun full => absurd full (by decide)⟩ rfl
  obtain ⟨q', runs⟩ := always _ pushed .popLast (show _ ≠ _ by decide) trivial
  cases runs

end LiveQueue

end Xxlib.Uv4
