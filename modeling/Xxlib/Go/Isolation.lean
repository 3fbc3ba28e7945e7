import Xxlib.Go.Frames
import Xxlib.Go.Hostile

/-! What a frame on the connection has to do with the bytes behind it: `TcpPeer.Read` decodes
on the whole receive buffer, with no bound at the end of the frame.
-/

set_option autoImplicit false

namespace Xxlib.Go

open Lib

/-! ## A message depends on the bytes that it takes -/

theorem readMessage_local (typeId : Nat) : (tape False).Local (readMessage typeId) := by
  have serial : (tape False).Local (readSerial typeId) := by
    unfold readSerial
    split
    · exact readUInt32_local.map _
    · exact .pure _
  apply serial.bind
  intro serial
  exact readRoot_local.map _

/-! ## Frames in a receive buffer -/

/-- A header, and as many bytes as it says. -/
structure Frame where
  bytes : List UInt8
  whole : headerLen bytes 0 + dataLen bytes 0 = bytes.length

namespace Frame

def typeId (frame : Frame) : Nat := byteAt frame.bytes 0 &&& 3

def data (frame : Frame) : List UInt8 := frame.bytes.drop (headerLen frame.bytes 0)

/-- A receive buffer with the frame behind `before`. -/
def within (frame : Frame) (before after spare : List UInt8) : Slice := ⟨before ++ (frame.bytes ++ after), spare⟩

variable (frame : Frame) {before after spare : List UInt8} {state : Reading}

theorem byteAt_within {i : Nat} (inside : i < frame.bytes.length) :
    byteAt (frame.within before after spare).data (before.length + i) = byteAt frame.bytes i := by
  have shape : (frame.within before after spare).data.drop before.length = frame.bytes ++ after := List.drop_left
  rw [byteAt_of_drop shape, byteAt_append inside]

theorem headerLen_pos : 3 ≤ frame.bytes.length ∧ (isBig frame.bytes 0 = true → 5 ≤ frame.bytes.length) := by
  have whole := frame.whole
  unfold headerLen at whole
  split at whole
  · next big => exact ⟨by omega, fun _ => by omega⟩
  · next small => exact ⟨by omega, fun big => absurd big small⟩

theorem isBig_within : isBig (frame.within before after spare).data before.length = isBig frame.bytes 0 := by
  have inside := frame.headerLen_pos.1
  unfold isBig
  rw [← frame.byteAt_within (by omega : 0 < frame.bytes.length), Nat.add_zero]

theorem headerLen_within : headerLen (frame.within before after spare).data before.length = headerLen frame.bytes 0 := by
  unfold headerLen
  rw [frame.isBig_within]

theorem dataLen_within : dataLen (frame.within before after spare).data before.length = dataLen frame.bytes 0 := by
  obtain ⟨small, large⟩ := frame.headerLen_pos
  unfold dataLen
  rw [frame.isBig_within, frame.byteAt_within (by omega), frame.byteAt_within (by omega)]
  simp only [Nat.zero_add]
  split
  · next big =>
    have room := large big
    rw [frame.byteAt_within (by omega), frame.byteAt_within (by omega)]
  · rfl

theorem data_length : frame.data.length = dataLen frame.bytes 0 := by
  have whole := frame.whole
  unfold data
  rw [List.length_drop]
  omega

theorem reach_within : (state.memory (frame.within before after spare) (before.length + headerLen frame.bytes 0)).reach =
    frame.data ++ (after ++ spare) := by
  have whole := frame.whole
  unfold Memory.reach Reading.memory within data
  rw [List.append_assoc, List.append_assoc, ← List.drop_drop, List.drop_left, List.drop_append_of_le_length (by omega)]

/-- The round of the loop that meets the frame. -/
theorem round_within : round (frame.within before after spare) before.length state =
    if dataLen frame.bytes 0 = 0 then .leave true state
    else
      let m := state.memory (frame.within before after spare) (before.length + headerLen frame.bytes 0)
      if frame.typeId = 3 then .leave true { state with recvBB := m.bb }
      else Round.after state (before.length + frame.bytes.length) (readMessage frame.typeId m) := by
  obtain ⟨small, large⟩ := frame.headerLen_pos
  have whole := frame.whole
  have size : (frame.within before after spare).data.length = before.length + (frame.bytes.length + after.length) := by
    simp [within]
  have type : byteAt (frame.within before after spare).data before.length = byteAt frame.bytes 0 :=
    frame.byteAt_within (i := 0) (by omega)
  unfold round
  simp only [frame.isBig_within, frame.headerLen_within, frame.dataLen_within, size, type]
  rw [if_pos (by omega), if_neg (by rintro ⟨big, short⟩; have := large big; omega)]
  by_cases empty : dataLen frame.bytes 0 = 0
  · rw [if_pos (by omega), if_pos empty]
  · rw [if_neg (by omega), if_neg (by omega), if_neg empty]
    unfold typeId Round.after
    split
    · rfl
    · rw [Nat.add_assoc, whole]
      rfl

end Frame

/-! ## Isolation -/

/-- Two rounds have appended the same message, or both have reported an error. -/
def SameMessage : Round → Round → Prop
  | .next _ state₁, .next _ state₂ => state₁.recvs = state₂.recvs ∧ state₁.heap = state₂.heap
  | .leave error₁ _, .leave error₂ _ => error₁ = true ∧ error₂ = true
  | _, _ => False

/-- Whatever follows the frame in the receive buffer: a message that is appended for it has taken the frame to its
end, and it is the same one, or the same error. -/
def Frame.Isolated (frame : Frame) (before : List UInt8) (state : Reading) : Prop :=
  (∀ after spare next state', round (frame.within before after spare) before.length state = .next next state' →
    state'.recvBB.offset = before.length + frame.bytes.length) ∧
  ∀ after₁ spare₁ after₂ spare₂, SameMessage (round (frame.within before after₁ spare₁) before.length state)
    (round (frame.within before after₂ spare₂) before.length state)

/-- The decoder, given nothing but these bytes, reads them to their end. -/
def Complete (typeId : Nat) (state : Reading) (bytes : List UInt8) : Prop :=
  ∃ message m, readMessage typeId (state.memory { data := bytes } 0) = .ok message m ∧ m.bb.offset = bytes.length

section
variable {typeId : Nat} {state : Reading} {recvBuf : Slice} {offset : Nat} {message : NetMessage} {m : Memory}
  {bytes tail : List UInt8}

/-- What the decoder takes is a complete message. -/
theorem complete_of_read (ran : readMessage typeId (state.memory recvBuf offset) = .ok message m) :
    ∃ used, Complete typeId state used ∧ m.bb.offset = offset + used.length ∧
      used <+: (state.memory recvBuf offset).reach := by
  obtain ⟨used, takes, stands⟩ := readMessage_local typeId _ _ _ ran
  have alike : Alike False (state.memory recvBuf offset) (state.memory { data := used } 0) :=
    ⟨rfl, rfl, Nat.zero_le _, False.elim, False.elim⟩
  obtain ⟨u', read, taken, -⟩ := stands (state.memory { data := used } 0) [] alike (List.append_nil _).symm
  refine ⟨used, ⟨message, u', read, ?_⟩, takes.offset, ?_⟩
  · rw [taken.offset]
    exact Nat.zero_add _
  · rw [takes.bytes]
    exact List.prefix_append _ _

/-- A complete message is read wherever it stands. -/
theorem Complete.read (complete : Complete typeId state bytes) :
    ∃ message heap, ∀ recvBuf offset tail, offset ≤ recvBuf.data.length → recvBuf.data.drop offset = bytes ++ tail →
      ∃ m, readMessage typeId (state.memory recvBuf offset) = .ok message m ∧ m.heap = heap ∧
        m.bb.offset = offset + bytes.length := by
  obtain ⟨message, m, ran, done⟩ := complete
  obtain ⟨used, takes, stands⟩ := readMessage_local typeId _ _ _ ran
  obtain rfl : used = bytes := by
    have count : used.length = bytes.length := by
      rw [← done, takes.offset]
      exact (Nat.zero_add _).symm
    have shape : bytes = used ++ m.reach := by
      have bytes' := takes.bytes
      simpa [Memory.reach, Reading.memory] using bytes'
    have rest := congrArg List.length shape
    rw [List.length_append] at rest
    have none : m.reach = [] := List.eq_nil_of_length_eq_zero (by omega)
    rw [shape, none, List.append_nil]
  refine ⟨message, m.heap, fun recvBuf offset tail inside input => ?_⟩
  have alike : Alike False (state.memory { data := used } 0) (state.memory recvBuf offset) :=
    ⟨rfl, rfl, inside, False.elim, False.elim⟩
  obtain ⟨u', read, taken, alike'⟩ := stands _ tail alike input
  exact ⟨u', read, alike'.heap.symm, taken.offset⟩

end

/-- No complete message is a front part of the data or continues them, other than the data themselves. -/
def Frame.Exact (frame : Frame) (state : Reading) : Prop :=
  ∀ bytes, Complete frame.typeId state bytes → bytes <+: frame.data ∨ frame.data <+: bytes → bytes = frame.data

section
variable {frame : Frame} {before after spare : List UInt8} {state : Reading}

theorem Frame.data_within (frame : Frame) (before after spare : List UInt8) :
    (frame.within before after spare).data.drop (before.length + headerLen frame.bytes 0) = frame.data ++ after := by
  have whole := frame.whole
  unfold Frame.within Frame.data
  rw [← List.drop_drop, List.drop_left, List.drop_append_of_le_length (by omega)]

theorem Frame.inside (frame : Frame) (before after spare : List UInt8) :
    before.length + headerLen frame.bytes 0 ≤ (frame.within before after spare).data.length := by
  have whole := frame.whole
  simp only [Frame.within, List.length_append]
  omega

/-- What the decoder takes of an exact frame are its data. -/
theorem Frame.Exact.takes (exact' : frame.Exact state) {message : NetMessage} {m : Memory}
    (ran : readMessage frame.typeId
      (state.memory (frame.within before after spare) (before.length + headerLen frame.bytes 0)) = .ok message m) :
    Complete frame.typeId state frame.data ∧ m.bb.offset = before.length + frame.bytes.length := by
  obtain ⟨used, complete, place, front⟩ := complete_of_read ran
  rw [frame.reach_within] at front
  have same : used = frame.data :=
    exact' used complete (List.prefix_or_prefix_of_prefix front (List.prefix_append _ _))
  subst same
  have whole := frame.whole
  have size := frame.data_length
  exact ⟨complete, by omega⟩

/-- With a complete message at its beginning that is not the data, the frame is not isolated. -/
theorem Frame.Isolated.exact (isolated : frame.Isolated before state) (valid : frame.typeId ≠ 3)
    (some : dataLen frame.bytes 0 ≠ 0) : frame.Exact state := by
  intro bytes complete overlap
  have input : ∃ after tail, frame.data ++ after = bytes ++ tail := by
    rcases overlap with ⟨tail, same⟩ | ⟨after, same⟩
    · exact ⟨[], tail, by rw [List.append_nil, same]⟩
    · exact ⟨after, [], by rw [List.append_nil, same]⟩
  obtain ⟨after, tail, input⟩ := input
  obtain ⟨message, heap, reads⟩ := complete.read
  obtain ⟨m, read, -, place⟩ := reads (frame.within before after []) (before.length + headerLen frame.bytes 0) tail
    (frame.inside before after []) (by rw [frame.data_within, input])
  have taken := isolated.1 after [] (before.length + frame.bytes.length) ⟨m.heap, m.bb, state.recvs ++ [message]⟩ (by
    rw [frame.round_within, if_neg some]
    simp only
    rw [if_neg valid, read]
    rfl)
  have whole := frame.whole
  have size := frame.data_length
  have count : bytes.length = frame.data.length := by
    simp only at taken
    omega
  rcases overlap with front | front
  · exact front.eq_of_length count
  · exact (front.eq_of_length count.symm).symm

theorem Frame.Exact.isolated (exact' : frame.Exact state) (valid : frame.typeId ≠ 3)
    (some : dataLen frame.bytes 0 ≠ 0) : frame.Isolated before state := by
  have round' (after spare : List UInt8) : round (frame.within before after spare) before.length state =
      Round.after state (before.length + frame.bytes.length) (readMessage frame.typeId
        (state.memory (frame.within before after spare) (before.length + headerLen frame.bytes 0))) := by
    rw [frame.round_within, if_neg some]
    simp only
    rw [if_neg valid]
  constructor
  · intro after spare next state' ran
    rw [round'] at ran
    cases read : readMessage frame.typeId
        (state.memory (frame.within before after spare) (before.length + headerLen frame.bytes 0)) with
    | error panic m =>
      rw [read] at ran
      cases ran
    | ok message m =>
      rw [read] at ran
      cases ran
      exact (exact'.takes read).2
  · intro after₁ spare₁ after₂ spare₂
    -- if one of them is read, the data are a complete message, and the other one is read as well
    have both {after spare : List UInt8} {message : NetMessage} {m : Memory}
        (read : readMessage frame.typeId
          (state.memory (frame.within before after spare) (before.length + headerLen frame.bytes 0)) = .ok message m)
        (after' spare' : List UInt8) : ∃ m', readMessage frame.typeId
          (state.memory (frame.within before after' spare') (before.length + headerLen frame.bytes 0)) = .ok message m' ∧
            m'.heap = m.heap := by
      obtain ⟨message', heap, reads⟩ := (exact'.takes read).1.read
      obtain ⟨m₁, read₁, heap₁, -⟩ := reads _ _ after (frame.inside before after spare) (frame.data_within before after spare)
      obtain ⟨m₂, read₂, heap₂, -⟩ :=
        reads _ _ after' (frame.inside before after' spare') (frame.data_within before after' spare')
      rw [read] at read₁
      cases read₁
      exact ⟨m₂, read₂, heap₂.trans heap₁.symm⟩
    rw [round', round']
    cases first : readMessage frame.typeId
        (state.memory (frame.within before after₁ spare₁) (before.length + headerLen frame.bytes 0)) with
    | ok message m =>
      obtain ⟨m', second, heap⟩ := both first after₂ spare₂
      rw [second]
      exact ⟨rfl, heap.symm⟩
    | error panic m =>
      cases second : readMessage frame.typeId
          (state.memory (frame.within before after₂ spare₂) (before.length + headerLen frame.bytes 0)) with
      | error panic' m' => exact ⟨rfl, rfl⟩
      | ok message m' =>
        obtain ⟨_, read, -⟩ := both second after₁ spare₁
        rw [first] at read
        cases read

end

/-- A frame is isolated if and only if it is refused by its header, or no complete message begins as its data do
without being the data. -/
theorem frame_isolated_iff (frame : Frame) (before : List UInt8) (state : Reading) :
    frame.Isolated before state ↔ frame.typeId = 3 ∨ frame.data = [] ∨ frame.Exact state := by
  have empty_iff : frame.data = [] ↔ dataLen frame.bytes 0 = 0 := by
    rw [← frame.data_length, List.length_eq_zero_iff]
  rw [empty_iff]
  by_cases some : dataLen frame.bytes 0 = 0
  · have refused (after spare : List UInt8) : round (frame.within before after spare) before.length state =
        .leave true state := by
      rw [frame.round_within, if_pos some]
    refine ⟨fun _ => .inr (.inl some), fun _ => ⟨fun after spare next state' ran => ?_, fun _ _ _ _ => ?_⟩⟩
    · rw [refused] at ran
      cases ran
    · rw [refused, refused]
      exact ⟨rfl, rfl⟩
  · by_cases valid : frame.typeId = 3
    · have refused (after spare : List UInt8) : ∃ state', round (frame.within before after spare) before.length state =
          .leave true state' := by
        rw [frame.round_within, if_neg some]
        simp only
        rw [if_pos valid]
        exact ⟨_, rfl⟩
      refine ⟨fun _ => .inl valid, fun _ => ⟨fun after spare next state' ran => ?_, fun after₁ spare₁ after₂ spare₂ => ?_⟩⟩
      · obtain ⟨_, left⟩ := refused after spare
        rw [left] at ran
        cases ran
      · obtain ⟨_, left₁⟩ := refused after₁ spare₁
        obtain ⟨_, left₂⟩ := refused after₂ spare₂
        rw [left₁, left₂]
        exact ⟨rfl, rfl⟩
    · refine ⟨fun isolated => .inr (.inr (isolated.exact valid some)), fun accepted => ?_⟩
      rcases accepted with other | empty | exact'
      · exact absurd other valid
      · exact absurd empty some
      · exact exact'.isolated valid some

/-- A nil package of one byte in a frame that announces two: the second one is skipped. The first byte of a string in
a frame that announces no more: the rest is read from what follows the frame. -/
theorem frame_not_isolated :
    ¬ (Frame.mk [0, 2, 0, 0, 7] (by decide)).Isolated [] ⟨[], {}, []⟩ ∧
      ¬ (Frame.mk [0, 1, 0, 1] (by decide)).Isolated [] ⟨[], {}, []⟩ := by
  constructor
  · intro isolated
    exact absurd (isolated.1 [] [] 5 _ rfl) (by decide)
  · intro isolated
    exact absurd (isolated.1 [1, 0] [] 4 _ rfl) (by decide)

end Xxlib.Go
