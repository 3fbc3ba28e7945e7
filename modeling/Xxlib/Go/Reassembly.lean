import Xxlib.Go.Stream

/-! Calls of `Read` one after the other, where the stream is cut anywhere.

A call delivers the frames that it finds complete. What it leaves in `recvBuf` is what was not
used only if no frame was complete, or if it is at most two bytes that happen to be those at the
beginning of the buffer.
-/

set_option autoImplicit false

namespace Xxlib.Go

open Lib

/-- Calls of `Read`, with the answers. -/
def readAll (process : Process) : List (List UInt8) → Option (List Bool × Process)
  | [] => some ([], process)
  | chunk :: chunks => (read process ⟨chunk, false⟩).bind fun result =>
      (readAll result.2 chunks).map fun results => (result.1 :: results.1, results.2)

/-- The messages whose frames are complete in `input` were received, each once and in order, and the rest of
`input` is in `recvBuf`. -/
structure Reassembled (os : List Outgoing) (input : List UInt8) (process : Process) : Prop where
  messages : ∃ done undone, os = done ++ undone ∧
    List.Forall₂ (fun o message => Arrived o process.heap message) done process.peer.recvs ∧
    input = (done.map Outgoing.frame).flatten ++ process.peer.recvBuf.data
  waiting : frames.next process.peer.recvBuf.data = .wait
  unlimited : process.peer.recvBB.readLengthLimit = 0

/-- No frame is complete in what was kept and the next chunk, or behind the last frame that is complete there
are at most two bytes, which are also at the beginning. -/
def Clean (kept : List UInt8) : List (List UInt8) → Prop
  | [] => True
  | chunk :: chunks => ∃ complete rest, frames.drain (kept ++ chunk) = (complete, some rest) ∧
      (complete = [] ∨ rest.length ≤ 2 ∧ rest <+: kept ++ chunk) ∧ Clean rest chunks

/-! ## Frames that are cut -/

section
variable {os : List Outgoing} {input rest more : List UInt8}

theorem drain_frames (short : ∀ o ∈ os, o.data.length ≤ 65535) (waiting : frames.next rest = .wait) :
    frames.drain ((os.map Outgoing.frame).flatten ++ rest) = (os.map Outgoing.frame, some rest) := by
  induction os with
  | nil => exact Framer.drain_wait waiting
  | cons o os ih =>
    rw [List.map_cons, List.flatten_cons, List.append_assoc,
      Framer.drain_frame (o.next (short o List.mem_cons_self) _), List.take_left, List.drop_left,
      ih fun other member => short other (List.mem_cons_of_mem o member)]

/-- The frames that are complete in the front of a stream. -/
theorem frames_front (short : ∀ o ∈ os, o.data.length ≤ 65535)
    (cut : input ++ more = (os.map Outgoing.frame).flatten) : ∃ done undone rest, os = done ++ undone ∧
      input = (done.map Outgoing.frame).flatten ++ rest ∧ frames.next rest = .wait := by
  have whole : frames.drain (input ++ more) = (os.map Outgoing.frame, some []) := by
    rw [cut, ← List.append_nil (os.map Outgoing.frame).flatten]
    exact drain_frames short frames.nonempty
  obtain ⟨front, back, rest, parts, first, -⟩ := Framer.drain_front whole
  obtain ⟨done, undone, same, rfl, -⟩ := List.map_eq_append_iff.mp parts
  have remains : (frames.drain input).2 = some rest := by rw [first]
  refine ⟨done, undone, rest, same, ?_, Framer.drain_rest remains⟩
  rw [← Framer.drain_flatten remains, first]

/-- The call leaves what was not used. -/
theorem leftOver_eq_iff : leftOver ((os.map Outgoing.frame).flatten ++ rest) rest = rest ↔
    os = [] ∨ rest.length ≤ 2 ∧ rest <+: (os.map Outgoing.frame).flatten ++ rest := by
  unfold leftOver
  by_cases few : rest.length < 3
  · rw [if_pos few]
    constructor
    · intro same
      exact .inr ⟨by omega, List.prefix_iff_eq_take.mpr same.symm⟩
    · rintro (rfl | ⟨-, front⟩)
      · exact List.take_length
      · exact (List.prefix_iff_eq_take.mp front).symm
  · rw [if_neg few]
    constructor
    · intro same
      have fewer := frames_length_le os
      rw [List.append_left_eq_self.mp same] at fewer
      exact .inl (List.eq_nil_of_length_eq_zero (Nat.le_zero.mp fewer))
    · rintro (rfl | ⟨two, -⟩)
      · rfl
      · exact absurd two (by omega)

end

/-! ## One call after the other -/

section
variable {os : List Outgoing} {input chunk more : List UInt8} {process : Process}

/-- What a process has in `recvBuf` is determined by the stream. -/
theorem Reassembled.drained (regular : ∀ o ∈ os, o.Regular) (holds : Reassembled os input process) :
    (frames.drain input).2 = some process.peer.recvBuf.data := by
  obtain ⟨done, undone, rfl, -, parts⟩ := holds.messages
  rw [parts, drain_frames (fun o member => (regular o (List.mem_append_left _ member)).short) holds.waiting]

/-- What a call does. -/
structure Called (os : List Outgoing) (input chunk : List UInt8) (process after : Process)
    (complete : List (List UInt8)) (rest : List UInt8) : Prop where
  answer : read process ⟨chunk, false⟩ = some (false, after)
  drained : frames.drain (process.peer.recvBuf.data ++ chunk) = (complete, some rest)
  clean_iff : Reassembled os (input ++ chunk) after ↔
    complete = [] ∨ rest.length ≤ 2 ∧ rest <+: process.peer.recvBuf.data ++ chunk
  kept : Reassembled os (input ++ chunk) after → after.peer.recvBuf.data = rest

theorem Reassembled.called (holds : Reassembled os input process) (regular : ∀ o ∈ os, o.Regular)
    (arrived : 0 < chunk.length) (cut : input ++ chunk ++ more = (os.map Outgoing.frame).flatten) :
    ∃ after complete rest, Called os input chunk process after complete rest := by
  obtain ⟨done, undone, rfl, received, parts⟩ := holds.messages
  have regular' : ∀ o ∈ undone, o.Regular := fun o member => regular o (List.mem_append_right _ member)
  have remains : process.peer.recvBuf.data ++ chunk ++ more = (undone.map Outgoing.frame).flatten := by
    rw [parts, List.map_append, List.flatten_append, List.append_assoc, List.append_assoc] at cut
    rw [List.append_assoc]
    exact List.append_cancel_left cut
  obtain ⟨new, later, rest, rfl, shape, waiting⟩ := frames_front (fun o member => (regular' o member).short) remains
  have regularNew : ∀ o ∈ new, o.Regular := fun o member => regular' o (List.mem_append_left _ member)
  obtain ⟨after, answer, gained, left⟩ := read_frames holds.unlimited arrived regularNew waiting shape
  have drained : frames.drain (process.peer.recvBuf.data ++ chunk) = (new.map Outgoing.frame, some rest) := by
    rw [shape]
    exact drain_frames (fun o member => (regularNew o member).short) waiting
  have whole : input ++ chunk = ((done ++ new).map Outgoing.frame).flatten ++ rest := by
    rw [parts, List.append_assoc, shape, List.map_append, List.flatten_append, List.append_assoc]
  have kept : Reassembled (done ++ (new ++ later)) (input ++ chunk) after → after.peer.recvBuf.data = rest := by
    intro holds'
    have same := holds'.drained regular
    rw [whole, drain_frames _ waiting] at same
    · exact (Option.some.inj same).symm
    · intro o member
      apply (regular o _).short
      rw [← List.append_assoc]
      exact List.mem_append_left _ member
  refine ⟨after, _, rest, answer, drained, ?_, kept⟩
  rw [List.map_eq_nil_iff, shape, ← leftOver_eq_iff, ← shape, ← left]
  refine ⟨kept, fun same => ?_⟩
  obtain ⟨messages, recvs, arrivals⟩ := gained.recvs
  refine ⟨⟨done ++ new, later, (List.append_assoc _ _ _).symm, ?_, by rw [same]; exact whole⟩, by rw [same]; exact waiting,
    gained.unlimited⟩
  have recvs : after.peer.recvs = process.peer.recvs ++ messages := recvs
  rw [recvs]
  exact List.rel_append (received.imp fun _ _ each => each.mono gained.copies) arrivals

variable {front chunks : List (List UInt8)} {after : Process}

/-- The calls for `chunks` all return `false`, and leave what they should. -/
def Reassembles (os : List Outgoing) (input : List UInt8) (process : Process) (chunks : List (List UInt8)) : Prop :=
  ∃ last, readAll process chunks = some (List.replicate chunks.length false, last) ∧
    Reassembled os (input ++ chunks.flatten) last

theorem Reassembles.nil_iff : Reassembles os input process [] ↔ Reassembled os input process := by
  constructor
  · rintro ⟨last, ran, holds⟩
    cases ran
    simpa using holds
  · intro holds
    exact ⟨process, rfl, by simpa using holds⟩

theorem Reassembles.cons_iff (answer : read process ⟨chunk, false⟩ = some (false, after)) :
    Reassembles os input process (chunk :: chunks) ↔ Reassembles os (input ++ chunk) after chunks := by
  have step : readAll process (chunk :: chunks) =
      (readAll after chunks).map fun result => (false :: result.1, result.2) := by
    rw [readAll, answer]
    rfl
  unfold Reassembles
  rw [step, List.flatten_cons, List.append_assoc, List.length_cons, List.replicate_succ]
  apply exists_congr
  intro last
  apply and_congr_left'
  cases readAll after chunks with
  | none => simp
  | some result => simp [Prod.ext_iff]

/-- The calls reassemble the stream along the way if and only if it is cut so that each of them leaves what it
should. -/
theorem Reassembled.clean_iff (regular : ∀ o ∈ os, o.Regular) (holds : Reassembled os input process)
    (filled : ∀ chunk ∈ chunks, 0 < chunk.length)
    (cut : input ++ chunks.flatten = (os.map Outgoing.frame).flatten) :
    (∀ front, front <+: chunks → Reassembles os input process front) ↔ Clean process.peer.recvBuf.data chunks := by
  induction chunks generalizing input process with
  | nil =>
    constructor
    · intro _
      trivial
    · intro _ front early
      rw [List.prefix_nil.mp early]
      exact Reassembles.nil_iff.mpr holds
  | cons chunk chunks ih =>
    rw [List.flatten_cons, ← List.append_assoc] at cut
    obtain ⟨after, complete, rest, called⟩ := holds.called regular (filled chunk List.mem_cons_self) cut
    have filled' : ∀ other ∈ chunks, 0 < other.length :=
      fun other member => filled other (List.mem_cons_of_mem chunk member)
    constructor
    · intro always
      have holds' : Reassembled os (input ++ chunk) after := by
        have one := always [chunk] (by simp)
        rwa [Reassembles.cons_iff called.answer, Reassembles.nil_iff] at one
      refine ⟨complete, rest, called.drained, called.clean_iff.mp holds', ?_⟩
      rw [← called.kept holds']
      apply (ih holds' filled' cut).mp
      intro front early
      rw [← Reassembles.cons_iff called.answer]
      exact always _ (List.cons_prefix_cons.mpr ⟨rfl, early⟩)
    · rintro ⟨complete', rest', drained, clean, later⟩ front early
      cases drained.symm.trans called.drained
      have holds' := called.clean_iff.mpr clean
      rw [← called.kept holds'] at later
      cases front with
      | nil => exact Reassembles.nil_iff.mpr holds
      | cons first front =>
        obtain ⟨rfl, shorter⟩ := List.cons_prefix_cons.mp early
        exact (Reassembles.cons_iff called.answer).mpr ((ih holds' filled' cut).mpr later front shorter)

/-- At the end of the stream all messages were received. -/
theorem Reassembled.complete (regular : ∀ o ∈ os, o.Regular)
    (holds : Reassembled os (os.map Outgoing.frame).flatten process) :
    List.Forall₂ (fun o message => Arrived o process.heap message) os process.peer.recvs := by
  obtain ⟨done, undone, rfl, received, parts⟩ := holds.messages
  cases undone with
  | nil => rwa [List.append_nil]
  | cons o undone =>
    -- the frame of a message that is missing would be complete in `recvBuf`
    rw [List.map_append, List.flatten_append] at parts
    have kept := List.append_cancel_left parts
    have waiting := holds.waiting
    rw [← kept, List.map_cons, List.flatten_cons, o.next (regular o (by simp)).short] at waiting
    cases waiting

end

/-- A peer before the first call. -/
def fresh (heap : List Obj) : Process := ⟨heap, {}⟩

/-- However a stream of frames is cut, every state on the way is as it should be - the calls return `false`,
the messages of the complete frames were received, each once and in order, and `recvBuf` holds the rest - if and
only if each call leaves what was not used; and then all messages are received. -/
theorem readAll_reassembles_iff (heap : List Obj) (os : List Outgoing) (regular : ∀ o ∈ os, o.Regular)
    (chunks : List (List UInt8)) (filled : ∀ chunk ∈ chunks, 0 < chunk.length)
    (cut : chunks.flatten = (os.map Outgoing.frame).flatten) :
    ((∀ front, front <+: chunks → Reassembles os [] (fresh heap) front) ↔ Clean [] chunks) ∧
      (Clean [] chunks → ∃ last,
        readAll (fresh heap) chunks = some (List.replicate chunks.length false, last) ∧
          List.Forall₂ (fun o message => Arrived o last.heap message) os last.peer.recvs) := by
  have start : Reassembled os [] (fresh heap) :=
    ⟨⟨[], os, rfl, .nil, rfl⟩, frames.nonempty, rfl⟩
  have equivalent : _ ↔ Clean [] chunks := start.clean_iff regular filled cut
  refine ⟨equivalent, fun clean => ?_⟩
  obtain ⟨last, ran, holds⟩ := equivalent.mpr clean chunks List.prefix_rfl
  rw [List.nil_append, cut] at holds
  exact ⟨last, ran, holds.complete regular⟩

theorem notice_frame : notice.frame = [0, 1, 0, 0] := by decide +kernel

theorem notice_regular : notice.Regular := ⟨.inl rfl, by decide +kernel⟩

/-- Two frames, the first one cut in its header and the second one in its data. -/
theorem readAll_reassembles_pieces : ∃ last,
    readAll (fresh []) [[0], [1, 0, 0], response.frame.take 10, response.frame.drop 10] =
        some ([false, false, false, false], last) ∧
      List.Forall₂ (fun o message => Arrived o last.heap message) [notice, response] last.peer.recvs := by
  have regular : ∀ o ∈ [notice, response], o.Regular := by
    have second : response.Regular := ⟨.inr (by decide), by decide +kernel⟩
    simp [notice_regular, second]
  have filled : ∀ chunk ∈ [[0], [1, 0, 0], response.frame.take 10, response.frame.drop 10], 0 < chunk.length := by
    decide +kernel
  have cut : [[0], [1, 0, 0], response.frame.take 10, response.frame.drop 10].flatten =
      ([notice, response].map Outgoing.frame).flatten := by
    simp [notice_frame]
  have first : frames.drain ([] ++ [0]) = ([], some [0]) := Framer.drain_wait rfl
  have second : frames.drain ([0] ++ [1, 0, 0]) = ([notice.frame], some []) := by
    have whole : [0] ++ [1, 0, 0] = ([notice].map Outgoing.frame).flatten ++ [] := by simp [notice_frame]
    rw [whole]
    exact drain_frames (by simp [notice_regular.short]) frames.nonempty
  have third : frames.drain ([] ++ response.frame.take 10) = ([], some (response.frame.take 10)) :=
    Framer.drain_wait (by decide +kernel)
  have fourth : frames.drain (response.frame.take 10 ++ response.frame.drop 10) = ([response.frame], some []) := by
    have whole : response.frame.take 10 ++ response.frame.drop 10 = ([response].map Outgoing.frame).flatten ++ [] := by
      simp
    rw [whole]
    exact drain_frames (fun o member => (regular o (List.mem_cons_of_mem _ member)).short) frames.nonempty
  have clean : Clean [] [[0], [1, 0, 0], response.frame.take 10, response.frame.drop 10] :=
    ⟨_, _, first, .inl rfl, _, _, second, .inr ⟨Nat.zero_le 2, List.nil_prefix⟩, _, _, third, .inl rfl,
      _, _, fourth, .inr ⟨Nat.zero_le 2, List.nil_prefix⟩, trivial⟩
  exact (readAll_reassembles_iff [] [notice, response] regular _ filled cut).2 clean

/-- A frame is decoded again, if three bytes of the next one came with it. -/
theorem readAll_duplicates : ¬ ∀ (heap : List Obj) (os : List Outgoing) (chunks : List (List UInt8)),
    (∀ o ∈ os, o.Regular) → (∀ chunk ∈ chunks, 0 < chunk.length ∧ chunk.length ≤ 65535) →
    chunks.flatten = (os.map Outgoing.frame).flatten → ∃ last,
      readAll (fresh heap) chunks = some (List.replicate chunks.length false, last) ∧
        List.Forall₂ (fun o message => Arrived o last.heap message) os last.peer.recvs := by
  intro always
  obtain ⟨last, ran, received⟩ := always [] [notice, notice] [[0, 1, 0, 0, 0, 1, 0], [0]]
    (by simp [notice_regular]) (by decide) (by simp [notice_frame])
  have three : (readAll (fresh []) [[0, 1, 0, 0, 0, 1, 0], [0]]).map (fun result => result.2.peer.recvs.length) =
      some 3 := by decide +kernel
  rw [ran] at three
  have count : last.peer.recvs.length = 3 := Option.some.inj three
  rw [← received.length_eq] at count
  cases count

end Xxlib.Go
