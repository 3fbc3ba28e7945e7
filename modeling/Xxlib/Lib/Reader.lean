import Xxlib.Lib.Monitor

/-! Readers of bytes that nobody vouches for.

A reader is local if what it does depends only on the bytes that it takes, and on what
corresponding states have in common. A reader stays within a budget if it comes to an end
before the budget does, because each of its rounds takes something of what is left.
-/

set_option autoImplicit false

namespace Xxlib.Lib

variable {T ε α β γ : Type}

/-! ## Locality -/

/-- How readers move over their input. `Alike t u` says that `u` may stand in for `t`, apart from the bytes. -/
structure Tape (T : Type) where
  Takes : T → List UInt8 → T → Prop
  unread : T → List UInt8
  Alike : T → T → Prop
  refl : ∀ t, Takes t [] t
  trans : ∀ {t₁ t₂ t₃ used more}, Takes t₁ used t₂ → Takes t₂ more t₃ → Takes t₁ (used ++ more) t₃
  rest : ∀ {t used t' tail}, Takes t used t' → unread t = used ++ tail → unread t' = tail

namespace Tape

/-- The reader does the same wherever it finds the same bytes. -/
def Local (tape : Tape T) (read : EStateM ε T α) : Prop :=
  ∀ t x t', read t = .ok x t' → ∃ used, tape.Takes t used t' ∧
    ∀ u tail, tape.Alike t u → tape.unread u = used ++ tail →
      ∃ u', read u = .ok x u' ∧ tape.Takes u used u' ∧ tape.Alike t' u'

namespace Local

variable {tape : Tape T} {read : EStateM ε T α}

theorem pure (x : α) : tape.Local (Pure.pure x : EStateM ε T α) := by
  intro t x' t' ran
  cases ran
  exact ⟨[], tape.refl t, fun u tail alike _ => ⟨u, rfl, tape.refl u, alike⟩⟩

theorem throw (fault : ε) : tape.Local (MonadExcept.throw fault : EStateM ε T α) := by
  intro t x t' ran
  cases ran

theorem bind {next : α → EStateM ε T β} (first : tape.Local read) (second : ∀ x, tape.Local (next x)) :
    tape.Local (read >>= next) := by
  intro t y t' ran
  obtain ⟨x, t₁, ran₁, ran₂⟩ := bind_ok ran
  obtain ⟨used, takes₁, stands₁⟩ := first t x t₁ ran₁
  obtain ⟨more, takes₂, stands₂⟩ := second x t₁ y t' ran₂
  refine ⟨used ++ more, tape.trans takes₁ takes₂, fun u tail alike input => ?_⟩
  rw [List.append_assoc] at input
  obtain ⟨u₁, read₁, taken₁, alike₁⟩ := stands₁ u (more ++ tail) alike input
  obtain ⟨u', read₂, taken₂, alike'⟩ := stands₂ u₁ tail alike₁ (tape.rest taken₁ input)
  exact ⟨u', bind_run read₁ read₂, tape.trans taken₁ taken₂, alike'⟩

theorem map (first : tape.Local read) (f : α → β) : tape.Local (do return f (← read)) :=
  first.bind fun x => pure (f x)

/-- Looking at what corresponding states have in common. -/
theorem asks (f : T → β) (next : β → EStateM ε T γ) (common : ∀ t u, tape.Alike t u → f t = f u)
    (rest : ∀ b, tape.Local (next b)) : tape.Local (get >>= fun t => next (f t)) := by
  intro t y t' ran
  obtain ⟨used, takes, stands⟩ := rest (f t) t y t' ran
  refine ⟨used, takes, fun u tail alike input => ?_⟩
  obtain ⟨u', read, taken, alike'⟩ := stands u tail alike input
  refine ⟨u', ?_, taken, alike'⟩
  change next (f u) u = .ok y u'
  rw [← common t u alike]
  exact read

/-- An action that takes nothing, and does the same to corresponding states. -/
theorem quiet (still : ∀ t x t', read t = .ok x t' → tape.Takes t [] t')
    (same : ∀ t x t' u, read t = .ok x t' → tape.Alike t u → ∃ u', read u = .ok x u' ∧ tape.Alike t' u') :
    tape.Local read := by
  intro t x t' ran
  refine ⟨[], still t x t' ran, fun u tail alike _ => ?_⟩
  obtain ⟨u', read, alike'⟩ := same t x t' u ran alike
  exact ⟨u', read, still u x u' read, alike'⟩

theorem collect (each : tape.Local read) (count : Nat) : tape.Local (collect read count) := by
  induction count with
  | zero => exact pure []
  | succ count ih => exact each.bind fun y => ih.bind fun ys => pure (y :: ys)

end Local

end Tape

/-! ## Budgets -/

/-- Up to `count` times the same, with all results, in at most `rounds` rounds. -/
def collectWithin (exhausted : ε) (read : EStateM ε T β) : Nat → Nat → EStateM ε T (List β)
  | _, 0 => pure []
  | 0, _ + 1 => throw exhausted
  | rounds + 1, count + 1 => do
      let y ← read
      let ys ← collectWithin exhausted read rounds count
      pure (y :: ys)

/-- From a state on, the two readers do the same, and do not exhaust a budget. -/
def Settles (exhausted : ε) (t : T) (read read' : EStateM ε T β) : Prop :=
  read t = read' t ∧ ∀ t', read t ≠ .error exhausted t'

theorem Settles.bind {exhausted : ε} {t : T} {read read' : EStateM ε T α} {next next' : α → EStateM ε T β}
    (first : Settles exhausted t read read')
    (second : ∀ x t', read' t = .ok x t' → Settles exhausted t' (next x) (next' x)) :
    Settles exhausted t (read >>= next) (read' >>= next') := by
  obtain ⟨agree, never⟩ := first
  cases ran : read' t with
  | error fault t' =>
    rw [ran] at agree
    have refused : (read >>= next) t = .error fault t' := bind_error agree
    have refused' : (read' >>= next') t = .error fault t' := bind_error ran
    refine ⟨refused.trans refused'.symm, fun t'' failed => ?_⟩
    rw [refused] at failed
    exact never t'' (agree.trans (by cases failed; rfl))
  | ok x t' =>
    rw [ran] at agree
    obtain ⟨agree', never'⟩ := second x t' ran
    have forward : (read >>= next) t = next x t' := bind_run agree rfl
    have forward' : (read' >>= next') t = next' x t' := bind_run ran rfl
    exact ⟨by rw [forward, forward', agree'], fun t'' => by rw [forward]; exact never' t''⟩

/-- While not more than `n` is left, the two readers do the same, and do not exhaust a budget. -/
def Within (left : T → Nat) (exhausted : ε) (n : Nat) (read read' : EStateM ε T β) : Prop :=
  ∀ t, left t ≤ n → Settles exhausted t read read'

namespace Within

variable {left : T → Nat} {exhausted : ε} {n : Nat} {read read' : EStateM ε T α}

theorem fewer {k : Nat} (within : Within left exhausted n read read') (less : k ≤ n) :
    Within left exhausted k read read' := fun t few => within t (Nat.le_trans few less)

/-- A reader that has no budget. -/
theorem same (never : ∀ t t', read t ≠ .error exhausted t') : Within left exhausted n read read :=
  fun t _ => ⟨rfl, never t⟩

theorem pure (x : α) : Within left exhausted n (Pure.pure x : EStateM ε T α) (Pure.pure x) := by
  apply same
  intro t t' failed
  cases failed

/-- The continuation is only asked about the states that it can meet. -/
theorem bind_states {next next' : α → EStateM ε T β} (first : Within left exhausted n read read')
    (second : ∀ t x t', left t ≤ n → read' t = .ok x t' → Settles exhausted t' (next x) (next' x)) :
    Within left exhausted n (read >>= next) (read' >>= next') :=
  fun t few => (first t few).bind fun x t' ran => second t x t' few ran

theorem map (first : Within left exhausted n read read') (f : α → β) :
    Within left exhausted n (do return f (← read)) (do return f (← read')) :=
  first.bind_states fun _ _ _ _ _ => ⟨rfl, fun _ failed => by cases failed⟩

theorem bind {next next' : α → EStateM ε T β} (first : Within left exhausted n read read')
    (shrinks : ∀ t x t', read' t = .ok x t' → left t' ≤ left t)
    (second : ∀ x, Within left exhausted n (next x) (next' x)) :
    Within left exhausted n (read >>= next) (read' >>= next') :=
  first.bind_states fun t x t' few ran => second x t' (Nat.le_trans (shrinks t x t' ran) few)

/-- After a reader that takes something, less is left. -/
theorem bind_less {next next' : α → EStateM ε T β} (first : Within left exhausted n read read')
    (takes : ∀ t x t', read' t = .ok x t' → left t' < left t)
    (second : ∀ x k, k < n → Within left exhausted k (next x) (next' x)) :
    Within left exhausted n (read >>= next) (read' >>= next') := by
  apply first.bind_states
  intro t x t' few ran
  have less := takes t x t' ran
  exact second x (left t') (by omega) t' (Nat.le_refl _)

/-- A loop ends with its count, or with the bytes. -/
theorem collect (each : Within left exhausted n read read')
    (takes : ∀ t x t', read' t = .ok x t' → left t' < left t) {rounds : Nat} (enough : n < rounds) (count : Nat) :
    Within left exhausted n (collectWithin exhausted read rounds count) (Lib.collect read' count) := by
  induction rounds generalizing n count with
  | zero => omega
  | succ rounds ih =>
    cases count with
    | zero => exact pure []
    | succ count =>
      apply each.bind_less takes
      intro y k less
      have rest := ih (each.fewer (Nat.le_of_lt less)) (by omega) count
      exact rest.map fun ys => y :: ys

end Within

end Xxlib.Lib
