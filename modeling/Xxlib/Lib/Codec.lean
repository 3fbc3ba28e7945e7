import Mathlib.Data.List.Forall2

/-! Writers and the readers of what they write.

A writer appends to a stream. Its reader runs later, on a state of its own. A `Link`
says how the two states correspond while the one follows the other: `Agree` holds
between corresponding states, and `Grows` bounds what may happen to them, so that what
was known before is known afterwards.
-/

set_option autoImplicit false

namespace Xxlib.Lib

variable {S T L ε α β γ δ : Type}

/-- The states of a writer and of its reader at corresponding points, and a log of what they have in
common. -/
structure World (S T L : Type) where
  writer : S
  reader : T
  log : L

structure Link (S T L : Type) where
  written : S → List UInt8
  unread : T → List UInt8
  /-- Streams are shorter than this. -/
  limit : Nat
  Agree : World S T L → Prop
  Grows : World S T L → World S T L → Prop
  refl : ∀ w, Grows w w
  trans : ∀ {u v w}, Grows u v → Grows v w → Grows u w

namespace Link

/-- What `write` appends, `read` reads back, whatever follows. `fuel` bounds how deep `read` may nest. -/
def Codec (link : Link S T L) (Before : World S T L → Prop) (write : EStateM ε S α)
    (read : Nat → EStateM ε T β) (After : World S T L → α → β → Prop) : Prop :=
  ∀ s x s', write s = .ok x s' → ∃ bytes, link.written s' = link.written s ++ bytes ∧
    ((link.written s').length < link.limit → ∀ t log fuel tail, link.Agree ⟨s, t, log⟩ → Before ⟨s, t, log⟩ →
      link.unread t = bytes ++ tail → bytes.length ≤ fuel →
      ∃ y t' log', read fuel t = .ok y t' ∧ link.unread t' = tail ∧ link.Agree ⟨s', t', log'⟩ ∧
        link.Grows ⟨s, t, log⟩ ⟨s', t', log'⟩ ∧ After ⟨s', t', log'⟩ x y)

/-- What stays true while the states grow. -/
def Stable (link : Link S T L) (P : World S T L → Prop) : Prop := ∀ v w, link.Grows v w → P v → P w

end Link

namespace Link

variable {link : Link S T L} {P Q : World S T L → Prop}

theorem Stable.fixed (fact : Prop) : link.Stable fun _ => fact := fun _ _ _ holds => holds

theorem Stable.and (first : link.Stable P) (second : link.Stable Q) : link.Stable fun w => P w ∧ Q w :=
  fun v w grows holds => ⟨first v w grows holds.1, second v w grows holds.2⟩

end Link

theorem bind_ok {write : EStateM ε S α} {next : α → EStateM ε S γ} {s s' : S} {z : γ}
    (ran : (write >>= next) s = .ok z s') : ∃ x s₁, write s = .ok x s₁ ∧ next x s₁ = .ok z s' := by
  change EStateM.bind write next s = .ok z s' at ran
  unfold EStateM.bind at ran
  split at ran
  · next x s₁ first => exact ⟨x, s₁, first, ran⟩
  · cases ran

theorem bind_run {write : EStateM ε S α} {next : α → EStateM ε S γ} {s s₁ : S} {x : α}
    {result : EStateM.Result ε S γ} (first : write s = .ok x s₁) (second : next x s₁ = result) :
    (write >>= next) s = result := by
  change EStateM.bind write next s = result
  unfold EStateM.bind
  rw [first]
  exact second

theorem catch_run {body : EStateM ε S α} {handle : ε → EStateM ε S α} {s s' : S} {x : α} (ran : body s = .ok x s') :
    (tryCatch body handle) s = .ok x s' := by
  change EStateM.tryCatch body handle s = .ok x s'
  unfold EStateM.tryCatch
  simp only [ran]

namespace Link.Codec

variable {link : Link S T L} {Before : World S T L → Prop} {write : EStateM ε S α}
  {read : Nat → EStateM ε T β} {After : World S T L → α → β → Prop}

theorem done {x : α} {y : β} (holds : ∀ w, Before w → After w x y) :
    link.Codec Before (pure x : EStateM ε S α) (fun _ => pure y) After := by
  intro s x' s' ran
  cases ran
  refine ⟨[], (List.append_nil _).symm, fun _ t log _ tail agree before input _ => ?_⟩
  exact ⟨y, t, log, rfl, input, agree, link.refl _, holds _ before⟩

theorem bind [Nonempty β] {write' : α → EStateM ε S γ} {read' : β → Nat → EStateM ε T δ}
    {After' : World S T L → γ → δ → Prop} (first : link.Codec Before write read After)
    (second : ∀ x y, link.Codec (fun w => After w x y) (write' x) (read' y) After') :
    link.Codec Before (write >>= write') (fun fuel => read fuel >>= fun y => read' y fuel) After' := by
  intro s z s' ran
  obtain ⟨x, s₁, ran₁, ran₂⟩ := bind_ok ran
  obtain ⟨bytes₁, written₁, reads₁⟩ := first s x s₁ ran₁
  obtain ⟨bytes₂, written₂, -⟩ := second x (Classical.arbitrary β) s₁ z s' ran₂
  refine ⟨bytes₁ ++ bytes₂, by rw [written₂, written₁, List.append_assoc], ?_⟩
  intro short t log fuel tail agree before input enough
  rw [List.append_assoc] at input
  rw [List.length_append] at enough
  have short₁ : (link.written s₁).length < link.limit := by
    rw [written₂, List.length_append] at short
    omega
  obtain ⟨y, t₁, log₁, read₁, input₁, agree₁, grows₁, after₁⟩ :=
    reads₁ short₁ t log fuel (bytes₂ ++ tail) agree before input (by omega)
  obtain ⟨bytes, written, reads₂⟩ := second x y s₁ z s' ran₂
  obtain rfl : bytes₂ = bytes := List.append_cancel_left (written₂.symm.trans written)
  obtain ⟨out, t', log', read₂, input', agree', grows₂, after'⟩ :=
    reads₂ short t₁ log₁ fuel tail agree₁ after₁ input₁ (by omega)
  exact ⟨out, t', log', bind_run read₁ read₂, input', agree', link.trans grows₁ grows₂, after'⟩

theorem imp {Before' : World S T L → Prop} {After' : World S T L → α → β → Prop}
    (codec : link.Codec Before write read After) (before : ∀ w, Before' w → Before w)
    (after : ∀ w x y, After w x y → After' w x y) : link.Codec Before' write read After' := by
  intro s x s' ran
  obtain ⟨bytes, written, reads⟩ := codec s x s' ran
  refine ⟨bytes, written, fun short t log fuel tail agree holds input enough => ?_⟩
  obtain ⟨y, t', log', read, input', agree', grows, holds'⟩ :=
    reads short t log fuel tail agree (before _ holds) input enough
  exact ⟨y, t', log', read, input', agree', grows, after _ _ _ holds'⟩

/-- What is stable stays, beside what the codec says. -/
theorem frame {P : World S T L → Prop} (codec : link.Codec Before write read After) (stable : link.Stable P) :
    link.Codec (fun w => P w ∧ Before w) write read fun w x y => P w ∧ After w x y := by
  intro s x s' ran
  obtain ⟨bytes, written, reads⟩ := codec s x s' ran
  refine ⟨bytes, written, fun short t log fuel tail agree holds input deep => ?_⟩
  obtain ⟨y, t', log', read, input', agree', grows, holds'⟩ :=
    reads short t log fuel tail agree holds.2 input deep
  exact ⟨y, t', log', read, input', agree', grows, stable _ _ grows holds.1, holds'⟩

/-- What is stable can be carried along. -/
theorem carry {P : World S T L → Prop} (codec : link.Codec Before write read After) (stable : link.Stable P)
    (enough : ∀ w, P w → Before w) : link.Codec P write read fun w x y => After w x y ∧ P w :=
  (codec.frame stable).imp (fun w holds => ⟨holds, enough w holds⟩) fun _ _ _ after => after.symm

/-- The reader does something that its writer does not notice. -/
theorem follow {act : β → EStateM ε T γ} {After' : World S T L → α → γ → Prop}
    (codec : link.Codec Before write read After)
    (step : ∀ s t log x y, link.Agree ⟨s, t, log⟩ → After ⟨s, t, log⟩ x y → ∃ z t' log', act y t = .ok z t' ∧
      link.unread t' = link.unread t ∧ link.Agree ⟨s, t', log'⟩ ∧ link.Grows ⟨s, t, log⟩ ⟨s, t', log'⟩ ∧
        After' ⟨s, t', log'⟩ x z) :
    link.Codec Before write (fun fuel => read fuel >>= act) After' := by
  intro s x s' ran
  obtain ⟨bytes, written, reads⟩ := codec s x s' ran
  refine ⟨bytes, written, fun short t log fuel tail agree holds input enough => ?_⟩
  obtain ⟨y, t', log', read, input', agree', grows, holds'⟩ :=
    reads short t log fuel tail agree holds input enough
  obtain ⟨z, t'', log'', acted, same, agree'', grows', after⟩ := step s' t' log' x y agree' holds'
  exact ⟨z, t'', log'', bind_run read acted, same.trans input', agree'', link.trans grows grows', after⟩

/-- The reader looks at what it has read, and at its state. -/
theorem inspect {look : β → EStateM ε T γ} {After' : World S T L → α → γ → Prop}
    (codec : link.Codec Before write read After)
    (looks : ∀ w x y, link.Agree w → After w x y → ∃ z, look y w.reader = .ok z w.reader ∧ After' w x z) :
    link.Codec Before write (fun fuel => read fuel >>= look) After' := by
  apply codec.follow
  intro s t log x y agree after
  obtain ⟨z, looked, after'⟩ := looks _ x y agree after
  exact ⟨z, t, log, looked, rfl, agree, link.refl _, after'⟩

/-- The writer does something that its reader does not notice. -/
theorem silent {quiet : EStateM ε S γ} {write' : γ → EStateM ε S α} {Between : World S T L → γ → Prop}
    (step : ∀ s x s', quiet s = .ok x s' → link.written s' = link.written s ∧ ∀ t log,
      link.Agree ⟨s, t, log⟩ → Before ⟨s, t, log⟩ → link.Agree ⟨s', t, log⟩ ∧
        link.Grows ⟨s, t, log⟩ ⟨s', t, log⟩ ∧ Between ⟨s', t, log⟩ x)
    (codec : ∀ x, link.Codec (fun w => Between w x) (write' x) read After) :
    link.Codec Before (quiet >>= write') read After := by
  intro s x s' ran
  obtain ⟨z, s₁, ran₁, ran₂⟩ := bind_ok ran
  obtain ⟨same, agrees⟩ := step s z s₁ ran₁
  obtain ⟨bytes, written, reads⟩ := codec z s₁ x s' ran₂
  refine ⟨bytes, by rw [written, same], fun short t log fuel tail agree holds input enough => ?_⟩
  obtain ⟨agree₁, grows₁, between⟩ := agrees t log agree holds
  obtain ⟨y, t', log', read, input', agree', grows, holds'⟩ :=
    reads short t log fuel tail agree₁ between input enough
  exact ⟨y, t', log', read, input', agree', link.trans grows₁ grows, holds'⟩

/-- What has to be the case for the reader to be called may be assumed. -/
theorem possible {C : Prop}
    (appends : ∀ s x s', write s = .ok x s' → ∃ bytes, link.written s' = link.written s ++ bytes)
    (needed : ∀ s x s', write s = .ok x s' → (link.written s').length < link.limit →
      ∀ t log, Before ⟨s, t, log⟩ → C)
    (codec : C → link.Codec Before write read After) : link.Codec Before write read After := by
  intro s x s' ran
  by_cases holds : C
  · exact codec holds s x s' ran
  · obtain ⟨bytes, written⟩ := appends s x s' ran
    refine ⟨bytes, written, fun short t log _ _ _ before _ _ => ?_⟩
    exact absurd (needed s x s' ran short t log before) holds

theorem appends (codec : link.Codec Before write read After) (s : S) (x : α) (s' : S)
    (ran : write s = .ok x s') : ∃ bytes, link.written s' = link.written s ++ bytes := by
  obtain ⟨bytes, written, -⟩ := codec s x s' ran
  exact ⟨bytes, written⟩

end Link.Codec

/-- `count` times the same, with all results. -/
def collect (read : EStateM ε T β) : Nat → EStateM ε T (List β)
  | 0 => pure []
  | count + 1 => do
      let y ← read
      let ys ← collect read count
      pure (y :: ys)

/-- One after the other, with all results. -/
def collectAll : List (EStateM ε T β) → EStateM ε T (List β)
  | [] => pure []
  | read :: reads => do
      let y ← read
      let ys ← collectAll reads
      pure (y :: ys)

theorem collect_eq (read : EStateM ε T β) (count : Nat) : collect read count = collectAll (List.replicate count read) := by
  induction count with
  | zero => rfl
  | succ count ih => rw [List.replicate_succ, collect, collectAll, ih]

/-- A loop over a list, and the readers of its elements. -/
theorem Link.Codec.forM_each {link : Link S T L} {Before : World S T L → Prop} {R : World S T L → α → β → Prop}
    [Nonempty β] {write : α → EStateM ε S Unit} {read : α → Nat → EStateM ε T β} (xs : List α)
    (stable : link.Stable Before) (stableR : ∀ x y, link.Stable fun w => R w x y)
    (each : ∀ x ∈ xs, link.Codec Before (write x) (read x) fun w _ y => R w x y) :
    link.Codec Before (xs.forM write) (fun fuel => collectAll (xs.map fun x => read x fuel))
      (fun w _ ys => List.Forall₂ (R w) xs ys) := by
  induction xs with
  | nil => exact .done fun _ _ => .nil
  | cons x xs ih =>
    have rest := ih fun other member => each other (List.mem_cons_of_mem x member)
    have head := (each x List.mem_cons_self).carry stable fun _ holds => holds
    apply Link.Codec.bind head
    intro _ y
    have tail := rest.carry ((stableR x y).and stable) fun _ holds => holds.2
    exact tail.inspect fun _ _ _ _ after => ⟨_, rfl, .cons after.2.1 after.1⟩

/-- A loop over a list, and the loop that reads as many elements. -/
theorem Link.Codec.forM {link : Link S T L} {Before : World S T L → Prop} {R : World S T L → α → β → Prop}
    [Nonempty β] {write : α → EStateM ε S Unit} {read : Nat → EStateM ε T β} (xs : List α)
    (stable : link.Stable Before) (stableR : ∀ x y, link.Stable fun w => R w x y)
    (each : ∀ x ∈ xs, link.Codec Before (write x) read fun w _ y => R w x y) :
    link.Codec Before (xs.forM write) (fun fuel => collect (read fuel) xs.length)
      (fun w _ ys => List.Forall₂ (R w) xs ys) := by
  have same : ∀ fuel, collect (read fuel) xs.length = collectAll (xs.map fun _ => read fuel) := by
    intro fuel
    rw [List.map_const', collect_eq]
  simp only [same]
  exact Link.Codec.forM_each xs stable stableR each

/-- What holds between the states around each element, holds around all of them. -/
theorem forM_trans {R : S → S → Prop} (refl : ∀ s, R s s) (trans : ∀ {s₁ s₂ s₃}, R s₁ s₂ → R s₂ s₃ → R s₁ s₃)
    {write : α → EStateM ε S Unit} (each : ∀ x s u s', write x s = .ok u s' → R s s') (xs : List α) {s s' : S} {u : Unit}
    (ran : xs.forM write s = .ok u s') : R s s' := by
  induction xs generalizing s with
  | nil =>
    cases ran
    exact refl _
  | cons x xs ih =>
    obtain ⟨u₁, s₁, first, rest⟩ := bind_ok ran
    exact trans (each x s u₁ s₁ first) (ih rest)

/-- If each element adds to `size`, there are not more elements than that. -/
theorem forM_size {size : S → Nat} {write : α → EStateM ε S Unit}
    (each : ∀ x s u s', write x s = .ok u s' → size s < size s') (xs : List α) {s s' : S} {u : Unit}
    (ran : xs.forM write s = .ok u s') : size s + xs.length ≤ size s' := by
  induction xs generalizing s with
  | nil =>
    cases ran
    exact Nat.le_refl _
  | cons x xs ih =>
    obtain ⟨u₁, s₁, first, rest⟩ := bind_ok ran
    have one := each x s u₁ s₁ first
    have others := ih rest
    rw [List.length_cons]
    omega

end Xxlib.Lib
