import Mathlib.Data.List.GetD
import Xxlib.Uv4.Queue

/-! The memory of a `List<char>` (`xx_list.hpp`), which a `BBuffer` and a `String` are.

What a new block holds is not known. A list never gets two blocks of the same length, so that the length tells which
one it is. A block that `Alloc` cannot give, and a copy beyond the block, have no result.
-/

set_option autoImplicit false

namespace Xxlib.Uv4

structure CharList where
  buf : Nat → UInt8
  bufLen : Nat
  dataLen : Nat

/-- What the new blocks hold, by their length. -/
abbrev Blocks := Nat → Nat → UInt8

namespace CharList

def newBufByteLen (capacity : Nat) : Nat := queueBytes 1 capacity

def reserve (blocks : Blocks) (capacity : Nat) (l : CharList) : Option CharList :=
  if capacity ≤ l.bufLen then some l
  else if Allocates (newBufByteLen capacity) then
    some { l with
      buf := fun i => if i < l.dataLen then l.buf i else blocks (newBufByteLen capacity) i
      bufLen := newBufByteLen capacity }
  else none

theorem reserve_cases {blocks : Blocks} {capacity : Nat} {l l' : CharList} (done : l.reserve blocks capacity = some l') :
    (capacity ≤ l.bufLen ∧ l' = l) ∨
      ¬ capacity ≤ l.bufLen ∧ Allocates (newBufByteLen capacity) ∧
        l' = ⟨fun i => if i < l.dataLen then l.buf i else blocks (newBufByteLen capacity) i, newBufByteLen capacity, l.dataLen⟩ := by
  unfold CharList.reserve at done
  split at done
  · exact .inl ⟨‹_›, (Option.some.inj done).symm⟩
  · split at done
    · exact .inr ⟨‹_›, ‹_›, (Option.some.inj done).symm⟩
    · cases done

/-- `memcpy` to where the data end. -/
def append (bytes : List UInt8) (l : CharList) : Option CharList :=
  if l.dataLen + bytes.length ≤ l.bufLen then
    some { l with
      buf := fun i => if i < l.dataLen then l.buf i else bytes.getD (i - l.dataLen) (l.buf i)
      dataLen := l.dataLen + bytes.length }
  else none

theorem append_cases {bytes : List UInt8} {l l' : CharList} (done : l.append bytes = some l') :
    l.dataLen + bytes.length ≤ l.bufLen ∧
      l' = ⟨fun i => if i < l.dataLen then l.buf i else bytes.getD (i - l.dataLen) (l.buf i), l.bufLen,
        l.dataLen + bytes.length⟩ := by
  unfold CharList.append at done
  split at done
  · exact ⟨‹_›, (Option.some.inj done).symm⟩
  · cases done

/-- What a writer does with a list: `Reserve(dataLen + more)`, and copies. The sum is a `size_t`. -/
inductive Step where
  | reserve (more : Nat)
  | append (bytes : List UInt8)

def Step.run (blocks : Blocks) : Step → CharList → Option CharList
  | .reserve more, l => l.reserve blocks ((l.dataLen + more) % 2 ^ 64)
  | .append bytes, l => l.append bytes

def run (blocks : Blocks) : List Step → CharList → Option CharList
  | [], l => some l
  | step :: rest, l => (step.run blocks l).bind (run blocks rest)

theorem run_append (blocks : Blocks) (first second : List Step) (l : CharList) :
    run blocks (first ++ second) l = (run blocks first l).bind (run blocks second) := by
  induction first generalizing l with
  | nil => rfl
  | cons step rest ih =>
    rw [List.cons_append, run, run, Option.bind_assoc]
    exact congrArg _ (funext ih)

/-! ## What steps ask for -/

def Step.bytes : Step → List UInt8
  | .reserve _ => []
  | .append bytes => bytes

def written (steps : List Step) : List UInt8 := steps.flatMap Step.bytes

/-- The capacities, before they become a `size_t`. -/
def asks : Nat → List Step → List Nat
  | _, [] => []
  | dataLen, .reserve more :: rest => (dataLen + more) :: asks dataLen rest
  | dataLen, .append bytes :: rest => asks (dataLen + bytes.length) rest

/-- No step needs a new block. -/
def Stays (bufLen dataLen : Nat) (steps : List Step) : Prop := ∀ capacity ∈ asks dataLen steps, capacity % 2 ^ 64 ≤ bufLen

/-- There are the blocks, and the copies stay in them. -/
def Room : Nat → Nat → List Step → Prop
  | _, _, [] => True
  | bufLen, dataLen, .reserve more :: rest =>
      if (dataLen + more) % 2 ^ 64 ≤ bufLen then Room bufLen dataLen rest
      else Allocates (newBufByteLen ((dataLen + more) % 2 ^ 64)) ∧
        Room (newBufByteLen ((dataLen + more) % 2 ^ 64)) dataLen rest
  | bufLen, dataLen, .append bytes :: rest =>
      dataLen + bytes.length ≤ bufLen ∧ Room bufLen (dataLen + bytes.length) rest

/-- The bytes that are reserved cover the copies. `slack` are reserved before. -/
def Covered : Nat → List Step → Prop
  | _, [] => True
  | slack, .reserve more :: rest => Covered (max slack more) rest
  | slack, .append bytes :: rest => bytes.length ≤ slack ∧ Covered (slack - bytes.length) rest

@[simp] theorem written_nil : written [] = [] := rfl

@[simp] theorem written_reserve (more : Nat) (rest : List Step) : written (.reserve more :: rest) = written rest := rfl

@[simp] theorem written_append (bytes : List UInt8) (rest : List Step) :
    written (.append bytes :: rest) = bytes ++ written rest := rfl

theorem stays_reserve {bufLen dataLen more : Nat} {rest : List Step} :
    Stays bufLen dataLen (.reserve more :: rest) ↔ (dataLen + more) % 2 ^ 64 ≤ bufLen ∧ Stays bufLen dataLen rest :=
  List.forall_mem_cons

theorem newBufByteLen_spec {capacity : Nat} (positive : 0 < capacity) (small : capacity + sizeofMemHeader ≤ 2 ^ 63) :
    capacity ≤ newBufByteLen capacity ∧ Allocates (newBufByteLen capacity) := by
  have fits : Queue.Fits 1 capacity := by
    unfold Queue.Fits
    omega
  obtain ⟨large, header⟩ := fits.queueBytes
  rw [Nat.mul_one] at large
  exact ⟨large, Nat.ne_of_gt (Nat.lt_of_lt_of_le positive large), header⟩

theorem Covered.mono {slack slack' : Nat} {steps : List Step} (covered : Covered slack steps) (more : slack ≤ slack') :
    Covered slack' steps := by
  induction steps generalizing slack slack' with
  | nil => exact covered
  | cons step rest ih =>
    cases step with
    | reserve n => exact ih covered (by omega)
    | append bytes => exact ⟨covered.1.trans more, ih covered.2 (Nat.sub_le_sub_right more _)⟩

/-- There is room for what is reserved, as far as a block can be that large. -/
theorem Covered.room {slack bufLen dataLen : Nat} {steps : List Step} (covered : Covered slack steps)
    (reserved : dataLen + slack ≤ bufLen) (small : ∀ capacity ∈ asks dataLen steps, capacity + sizeofMemHeader ≤ 2 ^ 63) :
    Room bufLen dataLen steps := by
  induction steps generalizing slack bufLen dataLen with
  | nil => trivial
  | cons step rest ih =>
    cases step with
    | reserve more =>
      obtain ⟨here, later⟩ := List.forall_mem_cons.mp small
      have word : (dataLen + more) % 2 ^ 64 = dataLen + more := Nat.mod_eq_of_lt (by omega)
      unfold Room
      rw [word]
      split
      · exact ih covered (by omega) later
      · obtain ⟨large, allocates⟩ := newBufByteLen_spec (by omega : 0 < dataLen + more) here
        exact ⟨allocates, ih covered (by omega) later⟩
    | append bytes => exact ⟨by have := covered.1; omega, ih covered.2 (by have := covered.1; omega) small⟩

/-! ## Runs -/

section
variable {blocks : Blocks} {steps : List Step} {l l' : CharList}

/-- What a run leaves, and what the bytes behind the data become. -/
structure Ran (blocks : Blocks) (steps : List Step) (l l' : CharList) : Prop where
  dataLen : l'.dataLen = l.dataLen + (written steps).length
  front : ∀ i < l.dataLen, l'.buf i = l.buf i
  data : ∀ i, l.dataLen ≤ i → i < l'.dataLen → (written steps)[i - l.dataLen]? = some (l'.buf i)
  stays : Stays l.bufLen l.dataLen steps → l'.bufLen = l.bufLen ∧ ∀ i, l'.dataLen ≤ i → l'.buf i = l.buf i
  moves : ¬ Stays l.bufLen l.dataLen steps → ∃ len, ∀ i, l'.dataLen ≤ i → l'.buf i = blocks len i

theorem run_some_iff (blocks : Blocks) (steps : List Step) (l : CharList) :
    (∃ l', run blocks steps l = some l') ↔ Room l.bufLen l.dataLen steps := by
  induction steps generalizing l with
  | nil => simp [run, Room]
  | cons step rest ih =>
    cases step with
    | reserve more =>
      simp only [run, Step.run, CharList.reserve, Room]
      split
      · exact ih l
      · split
        · rename_i allocates
          simp only [Option.bind_some, allocates, true_and]
          exact ih _
        · rename_i allocates
          refine iff_of_false ?_ fun room => allocates room.1
          rintro ⟨l', done⟩
          cases done
    | append bytes =>
      simp only [run, Step.run, CharList.append, Room]
      split
      · rename_i fits
        simp only [Option.bind_some, fits, true_and]
        exact ih _
      · rename_i full
        simp [full]

theorem Ran.refl : Ran blocks [] l l where
  dataLen := rfl
  front _ _ := rfl
  data _ behind before := absurd behind (Nat.not_le_of_lt before)
  stays _ := ⟨rfl, fun _ _ => rfl⟩
  moves moved := absurd (fun _ none => absurd none (List.not_mem_nil)) moved

theorem Ran.reserved {more : Nat} {rest : List Step} (fits : (l.dataLen + more) % 2 ^ 64 ≤ l.bufLen)
    (ran : Ran blocks rest l l') : Ran blocks (.reserve more :: rest) l l' where
  dataLen := ran.dataLen
  front := ran.front
  data := ran.data
  stays stays := ran.stays (stays_reserve.mp stays).2
  moves moved := ran.moves fun stays => moved (stays_reserve.mpr ⟨fits, stays⟩)

/-- Behind the data a new block has other bytes. -/
theorem Ran.moved {more len : Nat} {rest : List Step} (large : ¬ (l.dataLen + more) % 2 ^ 64 ≤ l.bufLen)
    (ran : Ran blocks rest ⟨fun i => if i < l.dataLen then l.buf i else blocks len i, len, l.dataLen⟩ l') :
    Ran blocks (.reserve more :: rest) l l' where
  dataLen := ran.dataLen
  front i inside := (ran.front i inside).trans (if_pos inside)
  data := ran.data
  stays stays := absurd (stays_reserve.mp stays).1 large
  moves _ := by
    by_cases stays : Stays len l.dataLen rest
    · refine ⟨len, fun i behind => ((ran.stays stays).2 i behind).trans (if_neg ?_)⟩
      have grown := ran.dataLen
      simp only at grown
      omega
    · exact ran.moves stays

theorem Ran.appended {bytes : List UInt8} {rest : List Step}
    (ran : Ran blocks rest ⟨fun i => if i < l.dataLen then l.buf i else bytes.getD (i - l.dataLen) (l.buf i), l.bufLen,
      l.dataLen + bytes.length⟩ l') : Ran blocks (.append bytes :: rest) l l' := by
  have grown := ran.dataLen
  simp only at grown
  refine ⟨?_, fun i inside => ?_, fun i behind before => ?_, fun stays => ?_, ran.moves⟩
  · rw [grown, written_append, List.length_append, Nat.add_assoc]
  · exact (ran.front i (Nat.lt_add_right _ inside)).trans (if_pos inside)
  · rw [written_append]
    by_cases here : i < l.dataLen + bytes.length
    · have place : i - l.dataLen < bytes.length := by omega
      rw [List.getElem?_append_left place, List.getElem?_eq_getElem place, ran.front i here]
      exact congrArg some (((if_neg (Nat.not_lt.mpr behind)).trans (List.getD_eq_getElem _ _ place)).symm)
    · have next := ran.data i (Nat.le_of_not_lt here) before
      rwa [List.getElem?_append_right (by omega), Nat.sub_sub]
  · obtain ⟨same, kept⟩ := ran.stays stays
    refine ⟨same, fun i behind => (kept i behind).trans ?_⟩
    exact (if_neg (by omega)).trans (List.getD_eq_default _ _ (by omega))

theorem run_ran (runs : run blocks steps l = some l') : Ran blocks steps l l' := by
  induction steps generalizing l with
  | nil =>
    cases runs
    exact .refl
  | cons step rest ih =>
    obtain ⟨l₁, first, second⟩ := Option.bind_eq_some_iff.mp runs
    cases step with
    | reserve more =>
      rcases reserve_cases first with ⟨fits, rfl⟩ | ⟨large, -, rfl⟩
      · exact .reserved fits (ih second)
      · exact .moved large (ih second)
    | append bytes =>
      obtain ⟨-, rfl⟩ := append_cases first
      exact .appended (ih second)

end

end CharList

end Xxlib.Uv4
