import Xxlib.Lib.Codec

/-! Readers that may refuse what was written.

Whether a reader goes on is decided by a monitor, which looks at what is written and not at the bytes: it takes the log
of a `Link` to the next one, or stops.
-/

set_option autoImplicit false

namespace Xxlib.Lib

variable {S T L ε α β γ δ : Type}

theorem bind_error {read : EStateM ε T β} {next : β → EStateM ε T γ} {t t' : T} {fault : ε}
    (failed : read t = .error fault t') : (read >>= next) t = .error fault t' := by
  change EStateM.bind read next t = .error fault t'
  unfold EStateM.bind
  rw [failed]

theorem catch_error {body : EStateM ε T β} {handle : ε → EStateM ε T β} {t t' : T} {fault : ε}
    (failed : body t = .error fault t') : (tryCatch body handle) t = handle fault t' := by
  change EStateM.tryCatch body handle t = handle fault t'
  unfold EStateM.tryCatch
  simp only [failed]
  rfl

namespace Link

/-- The reader has come to where the writer is, or it has failed, as the monitor says. -/
def Outcome (link : Link S T L) (w : World S T L) (s' : S) (tail : List UInt8) :
    Option L → EStateM.Result ε T β → Prop
  | some log', .ok _ t' => link.unread t' = tail ∧ link.Agree ⟨s', t', log'⟩ ∧ link.Grows w ⟨s', t', log'⟩
  | none, .error _ _ => True
  | some _, .error _ _ | none, .ok _ _ => False

/-- `read` follows `write`, which keeps `Source` and appends `least` bytes at least, as far as the monitor lets it.
`fuel` bounds how deep `read` may nest. -/
def Follows (link : Link S T L) (Source : S → Prop) (least : Nat) (monitor : L → Option L) (write : EStateM ε S α)
    (read : Nat → EStateM ε T β) : Prop :=
  ∀ s x s', Source s → write s = .ok x s' → Source s' ∧ ∃ bytes, link.written s' = link.written s ++ bytes ∧
    least ≤ bytes.length ∧ ((link.written s').length < link.limit → ∀ t log fuel tail, link.Agree ⟨s, t, log⟩ →
      link.unread t = bytes ++ tail → bytes.length ≤ fuel →
      link.Outcome ⟨s, t, log⟩ s' tail (monitor log) (read fuel t))

variable {link : Link S T L} {Source : S → Prop} {w : World S T L} {s' : S} {tail : List UInt8} {least more : Nat}
  {monitor next : L → Option L} {write : EStateM ε S α} {read : Nat → EStateM ε T β}

section
variable {decision : Option L} {result : EStateM.Result ε T β}

theorem Outcome.cases (outcome : link.Outcome w s' tail decision result) :
    (decision = none ∧ ∃ fault t', result = .error fault t') ∨
      ∃ log' y t', decision = some log' ∧ result = .ok y t' ∧ link.unread t' = tail ∧ link.Agree ⟨s', t', log'⟩ ∧
        link.Grows w ⟨s', t', log'⟩ := by
  cases decision with
  | none =>
    cases result with
    | ok y t' => exact outcome.elim
    | error fault t' => exact .inl ⟨rfl, fault, t', rfl⟩
  | some log' =>
    cases result with
    | ok y t' => exact .inr ⟨log', y, t', rfl, rfl, outcome⟩
    | error fault t' => exact outcome.elim

theorem Outcome.refused {fault : ε} {t' : T} (decided : decision = none) (failed : result = .error fault t') :
    link.Outcome w s' tail decision result := by
  rw [decided, failed]
  trivial

theorem Outcome.accepted {log' : L} {y : β} {t' : T} (decided : decision = some log') (read : result = .ok y t')
    (input : link.unread t' = tail) (agree : link.Agree ⟨s', t', log'⟩) (grows : link.Grows w ⟨s', t', log'⟩) :
    link.Outcome w s' tail decision result := by
  rw [decided, read]
  exact ⟨input, agree, grows⟩

end

namespace Follows

theorem done (x : α) (y : β) :
    link.Follows Source 0 some (pure x : EStateM ε S α) fun _ => (pure y : EStateM ε T β) := by
  intro s x' s' source ran
  cases ran
  refine ⟨source, [], (List.append_nil _).symm, Nat.zero_le _, fun _ t log _ tail agree input _ => ?_⟩
  exact ⟨input, agree, link.refl _⟩

theorem fewer (follows : link.Follows Source least monitor write read) (less : more ≤ least) :
    link.Follows Source more monitor write read := by
  intro s x s' source ran
  obtain ⟨source', bytes, written, enough, reads⟩ := follows s x s' source ran
  exact ⟨source', bytes, written, Nat.le_trans less enough, reads⟩

/-- Only sources matter. -/
theorem on_source {write' : EStateM ε S α} (same : ∀ s, Source s → write' s = write s)
    (follows : link.Follows Source least monitor write read) : link.Follows Source least monitor write' read := by
  intro s x s' source ran
  rw [same s source] at ran
  exact follows s x s' source ran

theorem bind [Nonempty β] {write' : α → EStateM ε S γ} {read' : β → Nat → EStateM ε T δ}
    (first : link.Follows Source least monitor write read)
    (second : ∀ x y, link.Follows Source more next (write' x) (read' y)) :
    link.Follows Source (least + more) (fun log => (monitor log).bind next) (write >>= write')
      fun fuel => read fuel >>= fun y => read' y fuel := by
  intro s z s' source ran
  obtain ⟨x, s₁, ran₁, ran₂⟩ := bind_ok ran
  obtain ⟨source₁, bytes₁, written₁, enough₁, reads₁⟩ := first s x s₁ source ran₁
  obtain ⟨source', bytes₂, written₂, enough₂, -⟩ := second x (Classical.arbitrary β) s₁ z s' source₁ ran₂
  refine ⟨source', bytes₁ ++ bytes₂, by rw [written₂, written₁, List.append_assoc],
    by rw [List.length_append]; omega, ?_⟩
  intro short t log fuel tail agree input deep
  rw [List.append_assoc] at input
  rw [List.length_append] at deep
  have short₁ : (link.written s₁).length < link.limit := by
    rw [written₂, List.length_append] at short
    omega
  rcases (reads₁ short₁ t log fuel (bytes₂ ++ tail) agree input (by omega)).cases with
    ⟨decided, fault, t₁, failed⟩ | ⟨log₁, y, t₁, decided, read₁, input₁, agree₁, grows₁⟩
  · have stopped : (monitor log).bind next = none := by rw [decided]; rfl
    exact .refused stopped (bind_error failed)
  · obtain ⟨-, bytes, written, -, reads₂⟩ := second x y s₁ z s' source₁ ran₂
    obtain rfl : bytes₂ = bytes := List.append_cancel_left (written₂.symm.trans written)
    have sequel : (monitor log).bind next = next log₁ := by rw [decided]; rfl
    rcases (reads₂ short t₁ log₁ fuel tail agree₁ input₁ (by omega)).cases with
      ⟨decided₂, fault, t', failed⟩ | ⟨log', out, t', decided₂, read₂, input', agree', grows₂⟩
    · exact .refused (sequel.trans decided₂) (bind_run read₁ failed)
    · exact .accepted (sequel.trans decided₂) (bind_run read₁ read₂) input' agree' (link.trans grows₁ grows₂)

/-- What is done with the result does not matter. -/
theorem map (follows : link.Follows Source least monitor write read) (f : β → γ) :
    link.Follows Source least monitor write fun fuel => read fuel >>= fun y => pure (f y) := by
  intro s x s' source ran
  obtain ⟨source', bytes, written, enough, reads⟩ := follows s x s' source ran
  refine ⟨source', bytes, written, enough, fun short t log fuel tail agree input deep => ?_⟩
  rcases (reads short t log fuel tail agree input deep).cases with
    ⟨decided, fault, t', failed⟩ | ⟨log', y, t', decided, read', input', agree', grows⟩
  · exact .refused decided (bind_error failed)
  · exact .accepted decided (bind_run read' rfl) input' agree' grows

/-- A loop over a list, and the loop that reads as many elements. -/
theorem forM [Nonempty β] {write : α → EStateM ε S Unit} {monitor : α → L → Option L} (xs : List α)
    (each : ∀ x ∈ xs, link.Follows Source least (monitor x) (write x) read) :
    link.Follows Source (xs.length * least) (fun log => xs.foldlM (fun log x => monitor x log) log) (xs.forM write)
      fun fuel => collect (read fuel) xs.length := by
  induction xs with
  | nil => exact (done () []).fewer (by simp)
  | cons x xs ih =>
    have rest := ih fun other member => each other (List.mem_cons_of_mem x member)
    have both := (each x List.mem_cons_self).bind fun _ y => rest.map fun ys => y :: ys
    apply both.fewer
    rw [List.length_cons, Nat.succ_mul]
    omega

end Follows

end Link

end Xxlib.Lib
