import Mathlib.Data.List.Basic

/-! Cutting a stream of symbols into frames.

A framer looks at the front of what has arrived. Once it has recognised a frame, or
seen that there will be none, more input does not change its mind. Hence a reader
that keeps what it could not use yet does not notice where its input was cut.
-/

set_option autoImplicit false

namespace Xxlib.Lib

/-- What the front of the input is: the beginning of a frame, no frame, or a frame of `size` symbols. -/
inductive Verdict where
  | wait
  | bad
  | frame (size : Nat)
  deriving DecidableEq

structure Framer (α : Type) where
  next : List α → Verdict
  nonempty : next [] = .wait
  positive : ∀ {input n}, next input = .frame n → 0 < n
  bound : ∀ {input n}, next input = .frame n → n ≤ input.length
  frame_append : ∀ {input n}, next input = .frame n → ∀ more, next (input ++ more) = .frame n
  bad_append : ∀ {input}, next input = .bad → ∀ more, next (input ++ more) = .bad

namespace Framer

variable {α : Type} (framer : Framer α)

theorem drop_shorter {input : List α} {n : Nat} (found : framer.next input = .frame n) :
    (input.drop n).length < input.length := by
  have positive := framer.positive found
  have bound := framer.bound found
  rw [List.length_drop]
  omega

/-- All frames at the front of the input, and what remains; nothing remains of input that is rejected. -/
def drain (input : List α) : List (List α) × Option (List α) :=
  match _found : framer.next input with
  | .wait => ([], some input)
  | .bad => ([], none)
  | .frame n =>
      let rest := drain (input.drop n)
      (input.take n :: rest.1, rest.2)
termination_by input.length
decreasing_by exact framer.drop_shorter _found

variable {framer} {input : List α}

theorem drain_wait (found : framer.next input = .wait) : framer.drain input = ([], some input) := by
  rw [drain]
  split <;> simp_all

theorem drain_bad (found : framer.next input = .bad) : framer.drain input = ([], none) := by
  rw [drain]
  split <;> simp_all

theorem drain_frame {n : Nat} (found : framer.next input = .frame n) : framer.drain input =
    (input.take n :: (framer.drain (input.drop n)).1, (framer.drain (input.drop n)).2) := by
  rw [drain]
  split <;> simp_all

/-- Induction along the frames of the input. -/
theorem drain_induction {motive : List α → Prop}
    (wait : ∀ input, framer.next input = .wait → motive input)
    (bad : ∀ input, framer.next input = .bad → motive input)
    (frame : ∀ input n, framer.next input = .frame n → motive (input.drop n) → motive input)
    (input : List α) : motive input := by
  induction size : input.length using Nat.strongRecOn generalizing input with
  | ind size ih =>
    cases found : framer.next input with
    | wait => exact wait input found
    | bad => exact bad input found
    | frame n =>
      have shorter := framer.drop_shorter found
      exact frame input n found (ih _ (size ▸ shorter) _ rfl)

/-- Nothing is lost: the frames and the rest are the input. -/
theorem drain_flatten {rest : List α} (drained : (framer.drain input).2 = some rest) :
    (framer.drain input).1.flatten ++ rest = input := by
  induction input using framer.drain_induction generalizing rest with
  | wait input found =>
    rw [drain_wait found] at drained ⊢
    cases drained
    rfl
  | bad input found =>
    rw [drain_bad found] at drained
    cases drained
  | frame input n found ih =>
    rw [drain_frame found] at drained ⊢
    rw [List.flatten_cons, List.append_assoc, ih drained, List.take_append_drop]

/-- What remains is the beginning of a frame. -/
theorem drain_rest {rest : List α} (drained : (framer.drain input).2 = some rest) :
    framer.next rest = .wait := by
  induction input using framer.drain_induction generalizing rest with
  | wait input found =>
    rw [drain_wait found] at drained
    cases drained
    exact found
  | bad input found =>
    rw [drain_bad found] at drained
    cases drained
  | frame input n found ih =>
    rw [drain_frame found] at drained
    exact ih drained

theorem drain_append_bad (drained : (framer.drain input).2 = none) (more : List α) :
    framer.drain (input ++ more) = framer.drain input := by
  induction input using framer.drain_induction with
  | wait input found =>
    rw [drain_wait found] at drained
    cases drained
  | bad input found => rw [drain_bad found, drain_bad (framer.bad_append found more)]
  | frame input n found ih =>
    rw [drain_frame found] at drained
    have bound := framer.bound found
    rw [drain_frame found, drain_frame (framer.frame_append found more),
      List.take_append_of_le_length bound, List.drop_append_of_le_length bound, ih drained]

/-- Draining can be interrupted anywhere. -/
theorem drain_append {rest : List α} (drained : (framer.drain input).2 = some rest) (more : List α) :
    framer.drain (input ++ more) =
      ((framer.drain input).1 ++ (framer.drain (rest ++ more)).1, (framer.drain (rest ++ more)).2) := by
  induction input using framer.drain_induction with
  | wait input found =>
    rw [drain_wait found] at drained ⊢
    cases drained
    rfl
  | bad input found =>
    rw [drain_bad found] at drained
    cases drained
  | frame input n found ih =>
    rw [drain_frame found] at drained
    have bound := framer.bound found
    rw [drain_frame found, drain_frame (framer.frame_append found more),
      List.take_append_of_le_length bound, List.drop_append_of_le_length bound, ih drained]
    rfl

/-- Where input is accepted as a whole, its front is accepted as well. -/
theorem drain_front {more rest : List α} {frames : List (List α)}
    (drained : framer.drain (input ++ more) = (frames, some rest)) :
    ∃ front back kept, frames = front ++ back ∧ framer.drain input = (front, some kept) ∧
      framer.drain (kept ++ more) = (back, some rest) := by
  cases first : framer.drain input with
  | mk front remains =>
    have second : (framer.drain input).2 = remains := by rw [first]
    cases remains with
    | none =>
      rw [drain_append_bad second, first] at drained
      cases drained
    | some kept =>
      rw [drain_append second, first] at drained
      have parts := Prod.ext_iff.mp drained
      exact ⟨front, _, kept, parts.1.symm, rfl, Prod.ext rfl parts.2⟩

end Framer

end Xxlib.Lib
