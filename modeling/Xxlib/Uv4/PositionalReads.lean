import Xxlib.Uv4.Containers

/-! `ReadAt` and `ReadJump` (`xx_bbuffer.hpp`).

What is read is a list of readers, of which nothing is known but where they leave the buffer and whether they fail.
-/

set_option autoImplicit false

namespace Xxlib.Uv4.Containers

def State.seek (s : State) (offset : Nat) : State := { s with cursor := { s.cursor with offset := offset } }

@[simp] theorem State.seek_offset (s : State) (offset : Nat) : (s.seek offset).cursor.offset = offset := rfl

/-- `ReadCore`, with the `ReadFrom` of each target. -/
def readCore : List (Work Unit) → Work Unit
  | [] => pure ()
  | readFrom :: targets => do
      readFrom
      readCore targets

section
variable (src : Source)

def readAt (pos : Nat) (targets : List (Work Unit)) : Work Unit := fun s =>
  if pos ≥ src.dataLen then .error (.code (-1)) s
  else
    let bak := s.cursor.offset
    match readCore targets (s.seek pos) with
    | .error r s => .error r s
    | .ok () s => .ok () (s.seek bak)

def readJump (len : Nat) (targets : List (Work Unit)) : Work Unit := fun s =>
  if (s.cursor.offset + len) % 2 ^ 64 > src.dataLen then .error (.code (-1)) s
  else
    let bak := s.cursor.offset
    match readCore targets s with
    | .error r s => .error r s
    | .ok () s => .ok () (s.seek ((bak + len) % 2 ^ 64))

end

/-- Where the buffer is after a call that returns. -/
def offsetAfter : EStateM.Result Fault State Unit → Option Nat
  | .ok _ s => some s.cursor.offset
  | .error (.code _) s => some s.cursor.offset
  | .error _ _ => none

/-- Where a target that fails leaves the buffer, when those before it could be read. -/
def FailsAt (targets : List (Work Unit)) (s : State) (offset : Nat) : Prop :=
  ∃ front readFrom back s₁ r s₂, targets = front ++ readFrom :: back ∧ readCore front s = .ok () s₁ ∧
    readFrom s₁ = .error (.code r) s₂ ∧ s₂.cursor.offset = offset

section
variable {src : Source} {targets : List (Work Unit)} {s s' : State} {len : Nat}

theorem readCore_cons (readFrom : Work Unit) (targets : List (Work Unit)) (s : State) :
    readCore (readFrom :: targets) s =
      match readFrom s with
      | .ok _ s => readCore targets s
      | .error r s => .error r s := by
  change EStateM.bind readFrom (fun _ => readCore targets) s = _
  rw [EStateM.bind]
  cases readFrom s <;> rfl

/-- A list of targets fails where one of them does. -/
theorem failsAt_iff (targets : List (Work Unit)) (s : State) (offset : Nat) :
    FailsAt targets s offset ↔ ∃ r s', readCore targets s = .error (.code r) s' ∧ s'.cursor.offset = offset := by
  induction targets generalizing s with
  | nil =>
    constructor
    · rintro ⟨front, readFrom, back, s₁, r, s₂, none, -⟩
      simp at none
    · rintro ⟨r, s', none, -⟩
      cases none
  | cons first targets ih =>
    rw [readCore_cons]
    cases ran : first s with
    | error e s₁ =>
      constructor
      · rintro ⟨front, readFrom, back, s₁', r, s₂, shape, before, fails, place⟩
        cases front with
        | nil =>
          obtain ⟨rfl, -⟩ := List.cons.inj shape
          cases before
          rw [ran] at fails
          exact ⟨r, s₂, fails, place⟩
        | cons head front =>
          obtain ⟨rfl, -⟩ := List.cons.inj shape
          rw [readCore_cons, ran] at before
          cases before
      · rintro ⟨r, s', failed, place⟩
        cases failed
        exact ⟨[], first, targets, s, r, s₁, rfl, rfl, ran, place⟩
    | ok u s₁ =>
      refine Iff.trans ?_ (ih s₁)
      constructor
      · rintro ⟨front, readFrom, back, s₁', r, s₂, shape, before, fails, place⟩
        cases front with
        | nil =>
          obtain ⟨rfl, -⟩ := List.cons.inj shape
          cases before
          cases ran.symm.trans fails
        | cons head front =>
          obtain ⟨rfl, rest⟩ := List.cons.inj shape
          rw [readCore_cons, ran] at before
          exact ⟨front, readFrom, back, s₁', r, s₂, rest, before, fails, place⟩
      · rintro ⟨front, readFrom, back, s₁', r, s₂, rest, before, fails, place⟩
        refine ⟨first :: front, readFrom, back, s₁', r, s₂, by rw [rest, List.cons_append], ?_, fails, place⟩
        rw [readCore_cons, ran]
        exact before

theorem readAt_iff (src : Source) (pos : Nat) (targets : List (Work Unit)) (s : State) :
    (∀ offset ∈ offsetAfter (readAt src pos targets s), offset = s.cursor.offset) ↔
      (pos < src.dataLen → ∀ offset, FailsAt targets (s.seek pos) offset → offset = s.cursor.offset) := by
  unfold readAt
  by_cases out : pos ≥ src.dataLen
  · rw [if_pos out]
    refine iff_of_true (fun offset member => ?_) fun inside => absurd inside (Nat.not_lt.mpr out)
    exact (Option.some.inj member).symm
  · rw [if_neg out]
    simp only [failsAt_iff, Nat.not_le.mp out, true_imp_iff]
    cases readCore targets (s.seek pos) with
    | ok u s' =>
      refine iff_of_true (fun offset member => (Option.some.inj member).symm) ?_
      rintro offset ⟨r, s'', none, -⟩
      cases none
    | error e s' =>
      cases e with
      | code r =>
        constructor
        · rintro keeps offset ⟨r', s'', failed, rfl⟩
          cases failed
          exact keeps _ rfl
        · rintro keeps offset member
          exact keeps offset ⟨r, s', rfl, Option.some.inj member⟩
      | endless =>
        refine iff_of_true (fun offset none => by cases none) ?_
        rintro offset ⟨r, s'', none, -⟩
        cases none
      | invalid =>
        refine iff_of_true (fun offset none => by cases none) ?_
        rintro offset ⟨r, s'', none, -⟩
        cases none

theorem readJump_fails_iff (src : Source) (len : Nat) (targets : List (Work Unit)) (s : State) :
    (∀ r s', readJump src len targets s = .error (.code r) s' → s'.cursor.offset = s.cursor.offset) ↔
      ((s.cursor.offset + len) % 2 ^ 64 ≤ src.dataLen → ∀ offset, FailsAt targets s offset → offset = s.cursor.offset) := by
  unfold readJump
  by_cases out : (s.cursor.offset + len) % 2 ^ 64 > src.dataLen
  · rw [if_pos out]
    refine iff_of_true (fun r s' failed => ?_) fun inside => absurd inside (Nat.not_le.mpr out)
    cases failed
    rfl
  · rw [if_neg out]
    simp only [failsAt_iff, Nat.not_lt.mp out, true_imp_iff]
    cases readCore targets s with
    | ok u s' =>
      refine iff_of_true (fun r s'' none => by cases none) ?_
      rintro offset ⟨r, s'', none, -⟩
      cases none
    | error e s' =>
      constructor
      · rintro keeps offset ⟨r, s'', failed, rfl⟩
        exact keeps r s'' failed
      · intro keeps r s'' failed
        exact keeps _ ⟨r, s'', failed, rfl⟩

theorem readJump_ok (done : readJump src len targets s = .ok () s') : s'.cursor.offset = (s.cursor.offset + len) % 2 ^ 64 := by
  unfold readJump at done
  by_cases out : (s.cursor.offset + len) % 2 ^ 64 > src.dataLen
  · rw [if_pos out] at done
    cases done
  · rw [if_neg out] at done
    cases read : readCore targets s with
    | ok u s'' =>
      rw [read] at done
      cases done
      rfl
    | error e s'' =>
      rw [read] at done
      cases done

/-- When a call keeps the place of the buffer, and when a jump has the length that was asked for. -/
theorem positional_reads_iff (src : Source) (targets : List (Work Unit)) (s : State) :
    (∀ pos, (∀ offset ∈ offsetAfter (readAt src pos targets s), offset = s.cursor.offset) ↔
        (pos < src.dataLen → ∀ offset, FailsAt targets (s.seek pos) offset → offset = s.cursor.offset)) ∧
      ∀ len,
        ((∀ r s', readJump src len targets s = .error (.code r) s' → s'.cursor.offset = s.cursor.offset) ↔
          ((s.cursor.offset + len) % 2 ^ 64 ≤ src.dataLen → ∀ offset, FailsAt targets s offset → offset = s.cursor.offset)) ∧
        ∀ s', readJump src len targets s = .ok () s' →
          (s'.cursor.offset = s.cursor.offset + len ↔ s.cursor.offset + len < 2 ^ 64) := by
  refine ⟨fun pos => readAt_iff src pos targets s, fun len => ⟨readJump_fails_iff src len targets s, fun s' done => ?_⟩⟩
  rw [readJump_ok done]
  omega

/-- Of three bytes, two cannot be read as one and four more. A jump by nearly 2^64 goes back. -/
theorem positional_reads_move :
    (let src : Source := { buf := fun _ => 7, dataLen := 3, word := by decide }
    ¬ (∀ offset ∈ offsetAfter (readAt src 1 [readFixed src 1, readFixed src 4] ⟨⟨0, []⟩, 0, fun _ => none, []⟩), offset = 0) ∧
      ¬ (∀ offset ∈ offsetAfter (readJump src 2 [readFixed src 1, readFixed src 4] ⟨⟨0, []⟩, 0, fun _ => none, []⟩), offset = 0) ∧
      ¬ (∀ offset ∈ offsetAfter (readJump src (2 ^ 64 - 1) [readFixed src 1] ⟨⟨1, []⟩, 0, fun _ => none, []⟩),
        offset = 1 + (2 ^ 64 - 1))) := by
  decide

/-! ## Numbers -/

theorem readFixed_fails {size : Nat} {r : Fault} (failed : readFixed src size s = .error r s') :
    s'.cursor.offset = s.cursor.offset := by
  have unfolded : readFixed src size s =
      if (s.cursor.offset + size) % 2 ^ 64 > src.dataLen then .error (.code (-1)) s
      else .ok () (s.copied ⟨.byte, s.cursor.offset, size⟩) := by
    change EStateM.bind (checkEnd src (-1) size) (fun _ => memcpy .byte size) s = _
    rw [EStateM.bind, checkEnd]
    by_cases out : (s.cursor.offset + size) % 2 ^ 64 > src.dataLen
    · rw [if_pos out, if_pos out]
    · rw [if_neg out, if_neg out]
      rfl
  rw [unfolded] at failed
  split at failed
  · cases failed
    rfl
  · cases failed

theorem varRead_fails {signedChar : Bool} {w : Width} {r : Fault} (failed : varRead signedChar src w s = .error r s') :
    s'.cursor.offset = s.cursor.offset := by
  obtain ⟨seen, -, ran⟩ := w.varRead7_refines signedChar src.toInput s.cursor
  unfold varRead at failed
  rw [ran] at failed
  cases read : w.readList src.toInput.data s.cursor.offset with
  | error e =>
    rw [read] at failed
    cases failed
    rfl
  | ok result =>
    rw [read] at failed
    cases failed

theorem readElement_fails {signedChar : Bool} {readPtr : UInt16 → Work Unit} {e : Element} {r : Fault} (number : ∀ base, e ≠ .ptr base)
    (failed : readElement signedChar src readPtr e s = .error r s') : s'.cursor.offset = s.cursor.offset := by
  cases e with
  | byte => exact readFixed_fails failed
  | float => exact readFixed_fails failed
  | integer w =>
    change EStateM.bind (varRead signedChar src w) (fun _ => pure ()) s = _ at failed
    rw [EStateM.bind] at failed
    cases read : varRead signedChar src w s with
    | ok n s₁ =>
      rw [read] at failed
      cases failed
    | error e s₁ =>
      rw [read] at failed
      cases failed
      exact varRead_fails read
  | ptr base => exact absurd rfl (number base)

/-- If a number cannot be read at the place that was asked for, the buffer is left there. -/
theorem readAt_number {signedChar : Bool} {readPtr : UInt16 → Work Unit} {e : Element} {pos : Nat} {r : Int} {targets : List (Work Unit)}
    (inside : pos < src.dataLen) (number : ∀ base, e ≠ .ptr base)
    (failed : readElement signedChar src readPtr e (s.seek pos) = .error (.code r) s') :
    offsetAfter (readAt src pos (readElement signedChar src readPtr e :: targets) s) = some pos := by
  rw [readAt, if_neg (Nat.not_le.mpr inside)]
  simp only [readCore_cons, failed]
  exact congrArg some (readElement_fails number failed)

end

end Xxlib.Uv4.Containers
