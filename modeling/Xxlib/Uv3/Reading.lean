import Xxlib.Uv3.Unpack

/-! The read callback of `UvTcpBasePeer::ReadStart` over all the chunks of a connection, with a `HandlePack` that
may return anything at each call.

The result of `Unpack` takes the place of libuv's `nread`. Only below zero the callback disposes the peer.
-/

set_option autoImplicit false

namespace Xxlib.Uv3

/-- `unpacking` is the offset of `Unpack` while it runs. `removed` counts the bytes that have left the buffer, so
that `handed` tells where in the stream each packet lies. -/
structure Reading where
  buf : List UInt8 := []
  unpacking : Option Nat := none
  disposed : Bool := false
  removed : Nat := 0
  handed : List (Nat × List UInt8) := []
  results : List Int := []
  deriving DecidableEq

namespace Reading

inductive Event where
  | chunk (recvBuf : List UInt8)
  | round (r : Int)

/-- The callback gets a chunk, and `Unpack` appends it. -/
def receive (recvBuf : List UInt8) (s : Reading) : Option Reading :=
  if s.disposed then none
  else match s.unpacking with
    | none => some { s with buf := s.buf ++ recvBuf, unpacking := some 0 }
    | some _ => none

/-- `Unpack` returns `result` before the buffer is compacted. -/
def leave (result : Int) (s : Reading) : Reading := { s with unpacking := none, disposed := decide (result < 0) }

/-- `Unpack` comes to its end. -/
def compact (offset : Nat) (s : Reading) : Reading :=
  { s with buf := removeFront s.buf offset, unpacking := none, removed := s.removed + offset }

/-- `HandlePack` is called and returns `r`. -/
def handle (offset : Nat) (len r : Int) (s : Reading) : Reading :=
  { s with
    handed := s.handed ++ [(s.removed + offset, (s.buf.drop offset).take len.toNat)]
    results := s.results ++ [r] }

/-- One round of the loop of `Unpack`. If it calls `HandlePack`, that returns `r`. -/
def round (r : Int) (s : Reading) : Option Reading :=
  match s.unpacking with
  | none => none
  | some offset =>
      if add32 offset 4 ≤ s.buf.length then
        let len := readLen s.buf offset
        -- the buffer keeps what was handed on, since it is not compacted on this way
        if len ≤ 0 then some (s.leave (-1))
        else if add32 (add32 offset 4) len > s.buf.length then some (s.compact offset)
        else
          let offset := add32 offset 4
          if r ≠ 0 then some ((s.handle offset len r).leave r)
          else some { s.handle offset len r with unpacking := some (add32 offset len) }
      else some (s.compact offset)

def step (s : Reading) : Event → Option Reading
  | .chunk recvBuf => s.receive recvBuf
  | .round r => s.round r

/-- The states of a new peer behind steps that meet `guard`. -/
inductive Run (guard : Reading → Event → Prop) : Reading → Prop where
  | start : Run guard {}
  | next {s s' : Reading} (event : Event) (before : Run guard s) (meets : guard s event)
      (runs : s.step event = some s') : Run guard s'

/-- What `HandlePack` returns is not positive, and the sums of the round stay within `uint32_t`. -/
def Meets (s : Reading) : Event → Prop
  | .chunk _ => True
  | .round r => r ≤ 0 ∧ ∀ offset : Nat, s.unpacking = some offset → offset + 4 < 2 ^ 32 ∧
      (offset + 4 ≤ s.buf.length → offset + 4 + readLen s.buf offset < 2 ^ 32)

/-! ## The loop as rounds -/

/-- The rounds of one call, with the results of `HandlePack`. -/
def rounds : List Int → Reading → Option Reading
  | [], s => some s
  | r :: rs, s => (s.round r).bind (rounds rs)

/-- The rounds of a call hand on the packets that `unpackLoop` hands on, and leave the buffer that it leaves. -/
theorem unpackLoop_rounds (handlePack : List UInt8 → Int) (fuel : Nat) {offset : Nat} {s : Reading} {last : Unpacked}
    (unpacking : s.unpacking = some offset) (alive : s.disposed = false)
    (unpacked : unpackLoop handlePack s.buf fuel offset = some last) :
    ∃ rs s', rounds rs s = some s' ∧ s'.unpacking = none ∧ s'.buf = last.buf ∧
      (s'.disposed = true ↔ last.result < 0) ∧ s'.handed.map Prod.snd = s.handed.map Prod.snd ++ last.packs := by
  induction fuel generalizing offset s last with
  | zero => cases unpacked
  | succ fuel ih =>
    unfold unpackLoop at unpacked
    by_cases header : add32 offset 4 ≤ s.buf.length
    · rw [if_pos header] at unpacked
      simp only at unpacked
      by_cases invalid : readLen s.buf offset ≤ 0
      · rw [if_pos invalid] at unpacked
        cases unpacked
        refine ⟨[0], s.leave (-1), ?_, rfl, rfl, by simp [leave], by simp [leave]⟩
        simp [rounds, round, unpacking, header, invalid]
      · rw [if_neg invalid] at unpacked
        by_cases missing : add32 (add32 offset 4) (readLen s.buf offset) > s.buf.length
        · rw [if_pos missing] at unpacked
          cases unpacked
          refine ⟨[0], s.compact offset, ?_, rfl, rfl, by simp [compact, alive], by simp [compact]⟩
          simp [rounds, round, unpacking, header, invalid, missing]
        · rw [if_neg missing] at unpacked
          generalize result : handlePack ((s.buf.drop (add32 offset 4)).take (readLen s.buf offset).toNat) = r at unpacked
          by_cases zero : r = 0
          · rw [if_neg (not_not.mpr zero)] at unpacked
            obtain ⟨rest, unpacked', rfl⟩ := Option.map_eq_some_iff.mp unpacked
            obtain ⟨rs, s', runs, stopped, buf, disposed, handed⟩ :=
              ih (s := { s.handle (add32 offset 4) (readLen s.buf offset) 0 with
                unpacking := some (add32 (add32 offset 4) (readLen s.buf offset)) }) rfl alive unpacked'
            refine ⟨0 :: rs, s', ?_, stopped, buf, disposed, ?_⟩
            · simpa [rounds, round, unpacking, header, invalid, missing] using runs
            · simpa [handle] using handed
          · rw [if_pos zero] at unpacked
            cases unpacked
            refine ⟨[r], (s.handle (add32 offset 4) (readLen s.buf offset) r).leave r, ?_, rfl, rfl, ?_, ?_⟩
            · simp [rounds, round, unpacking, header, invalid, missing, zero]
            · simp [leave]
            · simp [leave, handle]
    · rw [if_neg header] at unpacked
      cases unpacked
      refine ⟨[0], s.compact offset, ?_, rfl, rfl, by simp [compact, alive], by simp [compact]⟩
      simp [rounds, round, unpacking, header]

/-! ## What each step keeps -/

/-- What a round does, in its four ways to go. -/
theorem round_cases {s s' : Reading} {r : Int} (runs : s.round r = some s') :
    ∃ offset : Nat, s.unpacking = some offset ∧
      (s' = s.compact offset ∨ s' = s.leave (-1) ∨
        add32 offset 4 ≤ s.buf.length ∧ 0 < readLen s.buf offset ∧
          add32 (add32 offset 4) (readLen s.buf offset) ≤ s.buf.length ∧
          (r ≠ 0 ∧ s' = (s.handle (add32 offset 4) (readLen s.buf offset) r).leave r ∨
            r = 0 ∧ s' = { s.handle (add32 offset 4) (readLen s.buf offset) r with
              unpacking := some (add32 (add32 offset 4) (readLen s.buf offset)) })) := by
  unfold round at runs
  split at runs
  · cases runs
  next offset unpacking =>
    refine ⟨offset, unpacking, ?_⟩
    split at runs
    next header =>
      simp only at runs
      split at runs
      · exact .inr (.inl (Option.some.inj runs).symm)
      · split at runs
        · exact .inl (Option.some.inj runs).symm
        · refine .inr (.inr ⟨header, by omega, by omega, ?_⟩)
          split at runs
          next failed => exact .inl ⟨failed, (Option.some.inj runs).symm⟩
          next zero => exact .inr ⟨not_not.mp zero, (Option.some.inj runs).symm⟩
    next => exact .inl (Option.some.inj runs).symm

/-- The packets that were handed on lie one behind the other, and before what the peer will look at next. -/
structure InOrder (s : Reading) : Prop where
  inside : ∀ offset, s.unpacking = some offset → offset ≤ s.buf.length
  nonempty : ∀ pack ∈ s.handed, pack.2 ≠ []
  behind : s.handed.Pairwise fun first second => first.1 + first.2.length ≤ second.1
  before : s.disposed = false → ∀ pack ∈ s.handed, pack.1 + pack.2.length ≤ s.removed + s.unpacking.getD 0
  failed : ∀ r ∈ s.results, r ≠ 0 → s.disposed = true
  alive : ∀ offset, s.unpacking = some offset → s.disposed = false

section
variable {s s' : Reading}

theorem InOrder.receive (order : InOrder s) {recvBuf : List UInt8} (runs : s.receive recvBuf = some s') :
    InOrder s' := by
  unfold Reading.receive at runs
  split at runs
  · cases runs
  next alive =>
    split at runs
    next idle =>
      cases runs
      have before := order.before
      rw [idle] at before
      refine ⟨fun offset start => ?_, order.nonempty, order.behind, before, order.failed, fun _ _ => ?_⟩
      · cases start
        exact Nat.zero_le _
      · exact Bool.not_eq_true _ ▸ alive
    next => cases runs

theorem InOrder.compact (order : InOrder s) {offset : Nat} (unpacking : s.unpacking = some offset) :
    InOrder (s.compact offset) := by
  have before := order.before
  rw [unpacking] at before
  exact ⟨nofun, order.nonempty, order.behind, before, order.failed, nofun⟩

theorem InOrder.leave (order : InOrder s) {result : Int} (negative : result < 0) : InOrder (s.leave result) := by
  have disposed : (s.leave result).disposed = true := decide_eq_true negative
  refine ⟨nofun, order.nonempty, order.behind, fun alive => ?_, fun _ _ _ => disposed,
    nofun⟩
  rw [disposed] at alive
  cases alive

/-- A packet that is handed on lies behind all that were. -/
theorem InOrder.handle (order : InOrder s) {offset : Nat} (unpacking : s.unpacking = some offset) {len r : Int}
    (positive : 0 < len) (fits : offset + 4 + len ≤ s.buf.length) :
    (∀ pack ∈ (s.handle (offset + 4) len r).handed, pack.2 ≠ []) ∧
      ((s.handle (offset + 4) len r).handed.Pairwise fun first second => first.1 + first.2.length ≤ second.1) ∧
      ∀ pack ∈ (s.handle (offset + 4) len r).handed, pack.1 + pack.2.length ≤ s.removed + (offset + 4 + len.toNat) := by
  have before := order.before (order.alive offset unpacking)
  rw [unpacking, Option.getD_some] at before
  have length : ((s.buf.drop (offset + 4)).take len.toNat).length = len.toNat := by
    rw [List.length_take, List.length_drop]
    omega
  refine ⟨fun pack member => ?_, ?_, fun pack member => ?_⟩
  · rcases List.mem_append.mp member with old | new
    · exact order.nonempty pack old
    · obtain rfl := List.mem_singleton.mp new
      exact List.ne_nil_of_length_pos (by rw [length]; omega)
  · refine List.pairwise_append.mpr ⟨order.behind, List.pairwise_singleton _ _, fun pack old new member => ?_⟩
    obtain rfl := List.mem_singleton.mp member
    have := before pack old
    simp only
    omega
  · rcases List.mem_append.mp member with old | new
    · have := before pack old
      omega
    · obtain rfl := List.mem_singleton.mp new
      simp only
      omega

/-- The loop goes on behind a packet. -/
theorem InOrder.advance (order : InOrder s) {offset next : Nat} (unpacking : s.unpacking = some offset) {len r : Int}
    (zero : r = 0) (nonempty : ∀ pack ∈ (s.handle (offset + 4) len r).handed, pack.2 ≠ [])
    (behind : (s.handle (offset + 4) len r).handed.Pairwise fun first second => first.1 + first.2.length ≤ second.1)
    (before : ∀ pack ∈ (s.handle (offset + 4) len r).handed, pack.1 + pack.2.length ≤ s.removed + next)
    (inside : next ≤ s.buf.length) : InOrder { s.handle (offset + 4) len r with unpacking := some next } := by
  refine ⟨fun place same => ?_, nonempty, behind, fun _ => before, fun result member failed => ?_,
    fun _ _ => order.alive offset unpacking⟩
  · obtain rfl := Option.some.inj same
    exact inside
  · rcases List.mem_append.mp member with old | new
    · exact order.failed result old failed
    · exact absurd ((List.mem_singleton.mp new).trans zero) failed

theorem InOrder.round (order : InOrder s) {r : Int} (meets : Meets s (.round r)) (runs : s.round r = some s') :
    InOrder s' := by
  obtain ⟨offset, unpacking, rfl | rfl | ⟨header, positive, whole, goes⟩⟩ := round_cases runs
  · exact order.compact unpacking
  · exact order.leave (by decide)
  · have inside := order.inside offset unpacking
    obtain ⟨small, sum⟩ := meets.2 offset unpacking
    have start : add32 offset 4 = offset + 4 := by
      have := add32_eq (a := offset) (b := 4) (by omega) (by omega)
      omega
    rw [start] at header whole goes
    have ends : (add32 ((offset + 4 : Nat) : Int) (readLen s.buf offset) : Int) = offset + 4 + readLen s.buf offset := by
      have sum := sum header
      rw [add32_eq (by omega) (by omega)]
      omega
    have fits : offset + 4 + readLen s.buf offset ≤ s.buf.length := by omega
    obtain ⟨nonempty, behind, before⟩ := order.handle unpacking (r := r) positive fits
    rcases goes with ⟨failed, rfl⟩ | ⟨zero, rfl⟩
    · have negative : r < 0 := by
        have := meets.1
        omega
      have disposed : ((s.handle (offset + 4) (readLen s.buf offset) r).leave r).disposed = true :=
        decide_eq_true negative
      refine ⟨nofun, nonempty, behind, fun alive => ?_, fun _ _ _ => disposed,
        nofun⟩
      rw [disposed] at alive
      cases alive
    · have place : add32 ((offset + 4 : Nat) : Int) (readLen s.buf offset) = offset + 4 + (readLen s.buf offset).toNat := by
        omega
      rw [place]
      refine order.advance unpacking zero nonempty behind before ?_
      omega

end

/-! ## Whole runs -/

theorem Run.inOrder {s : Reading} (run : Run Meets s) : InOrder s := by
  induction run with
  | start =>
    exact ⟨nofun, nofun, .nil, nofun,
      nofun, nofun⟩
  | next event before meets runs order =>
    cases event with
    | chunk recvBuf => exact order.receive runs
    | round r => exact order.round meets runs

/-- In a run whose rounds meet the condition a result that is not zero disposes the peer, and no packet is handed on
twice: each one lies behind those before it. -/
theorem handed_once {s : Reading} (run : Run Meets s) :
    (∀ r ∈ s.results, r ≠ 0 → s.disposed = true) ∧ s.handed.Nodup ∧
      s.handed.Pairwise fun first second => first.1 + first.2.length ≤ second.1 := by
  have order := run.inOrder
  refine ⟨order.failed, ?_, order.behind⟩
  refine order.behind.imp_of_mem fun {first second} member _ behind same => ?_
  subst same
  have := List.length_pos_of_ne_nil (order.nonempty first member)
  omega

/-- A packet, then another one in two parts at which the handler fails. -/
theorem handed_once_failing : ∃ s : Reading, s.results = [0, -3] ∧ s.disposed = true ∧ s.handed.Nodup := by
  have first : Run Meets { buf := [1, 0, 0, 0, 7, 1, 0], unpacking := some 0 } :=
    Run.start.next (.chunk [1, 0, 0, 0, 7, 1, 0]) trivial rfl
  have handled : Run Meets { buf := [1, 0, 0, 0, 7, 1, 0], unpacking := some 5, handed := [(4, [7])], results := [0] } := by
    refine first.next (.round 0) ⟨by decide, fun offset same => ?_⟩ (by decide +kernel)
    cases same
    decide +kernel
  have waiting : Run Meets { buf := [1, 0], removed := 5, handed := [(4, [7])], results := [0] } := by
    refine handled.next (.round 0) ⟨by decide, fun offset same => ?_⟩ (by decide +kernel)
    cases same
    decide +kernel
  have second : Run Meets { buf := [1, 0, 0, 0, 8], unpacking := some 0, removed := 5, handed := [(4, [7])], results := [0] } :=
    waiting.next (.chunk [0, 0, 8]) trivial rfl
  have failed : Run Meets { buf := [1, 0, 0, 0, 8], disposed := true, removed := 5, handed := [(4, [7]), (9, [8])], results := [0, -3] } := by
    refine second.next (.round (-3)) ⟨by decide, fun offset same => ?_⟩ (by decide +kernel)
    cases same
    decide +kernel
  have once := handed_once failed
  exact ⟨_, rfl, once.1 (-3) (by decide) (by decide), once.2.1⟩

/-- Behind a positive result the same packet is handed on again, as soon as the next byte arrives. -/
theorem positive_result_replays :
    ¬ ∀ s : Reading, Run (fun _ _ => True) s → s.disposed = true ∨ s.handed.Nodup := by
  intro always
  have first : Run (fun _ _ => True) { buf := [1, 0, 0, 0, 7], unpacking := some 0 } :=
    Run.start.next (.chunk [1, 0, 0, 0, 7]) trivial rfl
  have positive : Run (fun _ _ => True) { buf := [1, 0, 0, 0, 7], handed := [(4, [7])], results := [1] } :=
    first.next (.round 1) trivial (by decide +kernel)
  have second : Run (fun _ _ => True) { buf := [1, 0, 0, 0, 7, 1], unpacking := some 0, handed := [(4, [7])], results := [1] } :=
    positive.next (.chunk [1]) trivial rfl
  have again : Run (fun _ _ => True) { buf := [1, 0, 0, 0, 7, 1], unpacking := some 5, handed := [(4, [7]), (4, [7])], results := [1, 0] } :=
    second.next (.round 0) trivial (by decide +kernel)
  rcases always _ again with disposed | once
  · cases disposed
  · exact absurd once (by decide)

end Reading

end Xxlib.Uv3
