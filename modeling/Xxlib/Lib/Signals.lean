import Mathlib.Data.Finset.Card

/-! Threads that announce what they did by a signal. A signal may be merged into one that is still on its way. -/

set_option autoImplicit false

namespace Xxlib.Lib

/-- The threads that owe a signal, and the signals on their way. -/
structure Signals (T : Type) where
  owing : Finset T := ∅
  pending : Nat := 0

namespace Signals

variable {T : Type}

section
variable {s s' : Signals T}

def deliver (s : Signals T) : Option (Signals T) :=
  if 0 < s.pending then some { s with pending := s.pending - 1 } else none

/-- The deliveries that are still to come, if no further signal is merged. -/
def outstanding (s : Signals T) : Nat := s.owing.card + s.pending

/-- No thread owes a signal and none is on its way. -/
def Quiet (s : Signals T) : Prop := s.owing = ∅ ∧ s.pending = 0

theorem quiet_iff_outstanding : s.Quiet ↔ s.outstanding = 0 := by
  unfold Quiet outstanding
  rw [Nat.add_eq_zero_iff, Finset.card_eq_zero]

theorem deliver_outstanding (runs : s.deliver = some s') : s'.outstanding + 1 = s.outstanding := by
  unfold deliver at runs
  by_cases some : 0 < s.pending
  · rw [if_pos some] at runs
    cases runs
    simp only [outstanding]
    omega
  · rw [if_neg some] at runs
    cases runs

end

section
variable [DecidableEq T] {s s' : Signals T} {t : T} {merged : Bool}

instance (s : Signals T) : Decidable s.Quiet := inferInstanceAs (Decidable (_ ∧ _))

/-- The thread does what it has to announce. It cannot do so twice before it signals. -/
def owe (t : T) (s : Signals T) : Option (Signals T) :=
  if t ∈ s.owing then none else some { s with owing := insert t s.owing }

/-- Only a signal on its way takes up another one. -/
def send (t : T) (merged : Bool) (s : Signals T) : Option (Signals T) :=
  if t ∈ s.owing ∧ (merged = true → 0 < s.pending) then
    some ⟨s.owing.erase t, if merged then s.pending else s.pending + 1⟩
  else none

theorem owe_outstanding (runs : s.owe t = some s') : s'.outstanding = s.outstanding + 1 := by
  unfold owe at runs
  by_cases owed : t ∈ s.owing
  · rw [if_pos owed] at runs
    cases runs
  · rw [if_neg owed] at runs
    cases runs
    simp only [outstanding, Finset.card_insert_of_notMem owed]
    omega

/-- A merged signal is one delivery less, but never the last one. -/
theorem send_outstanding (runs : s.send t merged = some s') :
    s'.outstanding + merged.toNat = s.outstanding ∧ 0 < s'.outstanding := by
  unfold send at runs
  by_cases allowed : t ∈ s.owing ∧ (merged = true → 0 < s.pending)
  · rw [if_pos allowed] at runs
    cases runs
    have some := Finset.card_pos.mpr ⟨t, allowed.1⟩
    simp only [outstanding, Finset.card_erase_of_mem allowed.1]
    cases merged with
    | false =>
      simp only [Bool.false_eq_true, if_false, Bool.toNat_false]
      omega
    | true =>
      have waits := allowed.2 rfl
      simp only [if_true, Bool.toNat_true]
      omega
  · rw [if_neg allowed] at runs
    cases runs

end

end Signals

end Xxlib.Lib
