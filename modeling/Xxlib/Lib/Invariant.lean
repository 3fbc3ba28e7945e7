import Xxlib.Lib.Monitor

/-! Programs that keep a property of their state, and what holds where they fail. -/

set_option autoImplicit false

namespace Xxlib.Lib

variable {S ε α β : Type}

/-- `J` holds at the end of a program, or `E` where it fails. -/
def Ends (J : S → Prop) (E : ε → S → Prop) : EStateM.Result ε S α → Prop
  | .ok _ s => J s
  | .error fault s => E fault s

/-- Where a program has come to. -/
def final : EStateM.Result ε S α → S
  | .ok _ s => s
  | .error _ s => s

def Keeps (J : S → Prop) (E : ε → S → Prop) (x : EStateM ε S α) : Prop := ∀ s, J s → Ends J E (x s)

namespace Keeps

variable {J : S → Prop} {E : ε → S → Prop} {x : EStateM ε S α}

theorem pure (a : α) : Keeps J E (Pure.pure a : EStateM ε S α) := fun _ holds => holds

theorem throw {fault : ε} (fails : ∀ s, J s → E fault s) : Keeps J E (MonadExcept.throw fault : EStateM ε S α) :=
  fun s holds => fails s holds

/-- What follows is for a result that the first part can have. -/
theorem bind_ran {next : α → EStateM ε S β} (first : Keeps J E x)
    (rest : ∀ a, (∃ s s', x s = .ok a s') → Keeps J E (next a)) : Keeps J E (x >>= next) := by
  intro s holds
  have ends := first s holds
  cases ran : x s with
  | ok a s' =>
    rw [ran] at ends
    have same : (x >>= next) s = next a s' := bind_run ran rfl
    rw [same]
    exact rest a ⟨s, s', ran⟩ s' ends
  | error fault s' =>
    rw [ran] at ends
    rw [bind_error ran]
    exact ends

theorem bind {next : α → EStateM ε S β} (first : Keeps J E x) (rest : ∀ a, Keeps J E (next a)) : Keeps J E (x >>= next) :=
  first.bind_ran fun a _ => rest a

theorem get {next : S → EStateM ε S β} (rest : ∀ s, J s → Ends J E (next s s)) : Keeps J E (MonadState.get >>= next) := rest

theorem modify {f : S → S} (kept : ∀ s, J s → J (f s)) : Keeps J E (modify f : EStateM ε S PUnit) := kept

theorem forM {f : α → EStateM ε S PUnit} (xs : List α) (each : ∀ a ∈ xs, Keeps J E (f a)) : Keeps J E (xs.forM f) := by
  induction xs with
  | nil => exact pure _
  | cons a xs ih =>
    rw [List.forM_eq_forM, List.forM_cons]
    exact (each a List.mem_cons_self).bind fun _ => ih fun b member => each b (List.mem_cons_of_mem a member)

theorem get_bind {next : S → EStateM ε S β} (rest : ∀ s, Keeps J E (next s)) : Keeps J E (MonadState.get >>= next) :=
  get fun s holds => rest s s holds

end Keeps

/-- What a state tells about those before it: all is `fine` and all requests have been `fit`, or one has not and has left its
mark on what is `kept`. -/
def Told (fine kept fit : Prop) : Prop := fine ∧ fit ∨ ¬ kept ∧ ¬ fit

theorem Told.iff {fine goal kept fit : Prop} (told : Told fine kept fit) (enough : fine → goal) (marked : goal → kept) :
    goal ↔ fit := by
  rcases told with ⟨holds, fits⟩ | ⟨broken, unfit⟩
  · exact ⟨fun _ => fits, fun _ => enough holds⟩
  · exact ⟨fun reached => absurd (marked reached) broken, fun fits => absurd fits unfit⟩

/-- The same again and again. -/
def times (x : EStateM ε S PUnit) : Nat → EStateM ε S PUnit
  | 0 => pure ()
  | n + 1 => do
      x
      times x n

theorem Keeps.times {J : S → Prop} {E : ε → S → Prop} {x : EStateM ε S PUnit} (each : Keeps J E x) (n : Nat) :
    Keeps J E (times x n) := by
  induction n with
  | zero => exact Keeps.pure _
  | succ n ih => exact each.bind fun _ => ih

end Xxlib.Lib
