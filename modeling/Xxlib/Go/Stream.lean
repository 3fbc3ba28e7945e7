import Xxlib.Go.Frames
import Xxlib.Lib.Framing

/-! Streams of frames: when `Read` delivers what was sent. -/

set_option autoImplicit false

namespace Xxlib.Go

open Lib

/-! ## Short frames -/

/-- The next frame of a stream without long ones. -/
def nextFrame (input : List UInt8) : Verdict :=
  if input.length < 3 then .wait
  else if isBig input 0 then .bad
  else if input.length < 3 + dataLen input 0 then .wait
  else .frame (3 + dataLen input 0)

theorem dataLen_append {input : List UInt8} (room : 3 ≤ input.length) (short : isBig input 0 = false)
    (more : List UInt8) : isBig (input ++ more) 0 = false ∧ dataLen (input ++ more) 0 = dataLen input 0 := by
  have flag : isBig (input ++ more) 0 = false := by
    rw [← short, isBig, isBig, byteAt_append (by omega)]
  refine ⟨flag, ?_⟩
  rw [dataLen, dataLen, flag, short]
  simp only [Bool.false_eq_true, ↓reduceIte]
  rw [byteAt_append (by omega), byteAt_append (by omega)]

/-- More input changes a verdict only if it was to wait. -/
theorem nextFrame_append {input : List UInt8} (decided : nextFrame input ≠ .wait) (more : List UInt8) :
    nextFrame (input ++ more) = nextFrame input := by
  unfold nextFrame at decided ⊢
  rw [List.length_append]
  by_cases few : input.length < 3
  · exact absurd (if_pos few) decided
  · rw [if_neg few] at decided ⊢
    rw [if_neg (by omega)]
    cases flag : isBig input 0 with
    | true =>
      have big : isBig (input ++ more) 0 = true := by
        rw [← flag, isBig, isBig, byteAt_append (by omega)]
      rw [big]
      rfl
    | false =>
      obtain ⟨short, same⟩ := dataLen_append (by omega) flag more
      rw [flag, if_neg Bool.false_ne_true] at decided
      rw [short, same, if_neg Bool.false_ne_true, if_neg Bool.false_ne_true]
      by_cases missing : input.length < 3 + dataLen input 0
      · exact absurd (if_pos missing) decided
      · rw [if_neg missing, if_neg (by omega)]

theorem nextFrame_frame {input : List UInt8} {n : Nat} (found : nextFrame input = .frame n) :
    0 < n ∧ n ≤ input.length := by
  unfold nextFrame at found
  split at found
  · cases found
  · split at found
    · cases found
    · split at found
      · cases found
      · cases found
        omega

def frames : Framer UInt8 where
  next := nextFrame
  nonempty := rfl
  positive := fun found => (nextFrame_frame found).1
  bound := fun found => (nextFrame_frame found).2
  frame_append := fun found more => by rw [nextFrame_append (by rw [found]; simp), found]
  bad_append := fun found more => by rw [nextFrame_append (by rw [found]; simp), found]

/-- What `Read` can deliver. -/
structure Outgoing.Regular (o : Outgoing) : Prop where
  numbered : o.Numbered
  short : o.data.length ≤ 65535

section
variable {o : Outgoing} {recvBuf : Slice} {offset : Nat} {state : Reading} {tail rest : List UInt8}

theorem Outgoing.next (short : o.data.length ≤ 65535) (tail : List UInt8) :
    frames.next (o.frame ++ tail) = .frame o.frame.length := by
  have header : ShortHeader o (o.frame ++ tail) 0 tail := o.header short rfl
  have room := header.room
  change nextFrame (o.frame ++ tail) = .frame o.frame.length
  unfold nextFrame
  rw [header.short, header.length, header.whole, if_neg (by omega), if_neg Bool.false_ne_true, if_neg (by omega)]

/-- Where a whole frame is missing, the loop ends: behind its last round if there are less than three bytes,
and by a return otherwise. -/
theorem round_wait (waiting : frames.next rest = .wait) (shape : recvBuf.data.drop offset = rest)
    (inside : offset ≤ recvBuf.data.length) :
    round recvBuf offset state = if rest.length < 3 then .finish else .leave false state := by
  have count := congrArg List.length shape
  rw [List.length_drop] at count
  simp only [round]
  by_cases few : rest.length < 3
  · rw [if_neg (by omega), if_pos few]
  · have verdict : nextFrame rest = .wait := waiting
    unfold nextFrame at verdict
    rw [if_neg few] at verdict
    rw [if_pos (by omega), if_neg few]
    cases flag : isBig rest 0 with
    | true =>
      rw [flag] at verdict
      cases verdict
    | false =>
      have same : isBig recvBuf.data offset = isBig rest 0 := by
        rw [isBig, isBig, ← byteAt_of_drop shape 0]
        rfl
      have length : dataLen recvBuf.data offset = dataLen rest 0 := by
        rw [dataLen, dataLen, same, flag]
        simp only [Bool.false_eq_true, ↓reduceIte, Nat.zero_add]
        rw [byteAt_of_drop shape, byteAt_of_drop shape]
      rw [flag, if_neg Bool.false_ne_true] at verdict
      have missing : rest.length < 3 + dataLen rest 0 := by
        by_contra whole
        rw [if_neg whole] at verdict
        cases verdict
      have three : headerLen recvBuf.data offset = 3 := by
        rw [headerLen, same, flag]
        rfl
      simp only [same, flag, length, three, Bool.false_eq_true, false_and, ↓reduceIte]
      rw [if_neg (by omega), if_pos (by omega)]

end

/-! ## The messages of a buffer -/

theorem Arrived.mono {o : Outgoing} {heap heap' : List Obj} {message : NetMessage} (arrived : Arrived o heap message)
    (copies : ∀ (addr : Addr) (obj : Obj), heap[addr]? = some obj → heap'[addr]? = some obj) :
    Arrived o heap' message :=
  ⟨arrived.typeId, arrived.serial, arrived.pkg.mono copies⟩

/-- The messages `os` were appended, each once and in order, and what was received before is still there. -/
structure Gained (os : List Outgoing) (state state' : Reading) : Prop where
  recvs : ∃ messages, state'.recvs = state.recvs ++ messages ∧
    List.Forall₂ (fun o message => Arrived o state'.heap message) os messages
  copies : ∀ (addr : Addr) (obj : Obj), state.heap[addr]? = some obj → state'.heap[addr]? = some obj
  unlimited : state'.recvBB.readLengthLimit = 0

theorem Gained.append {os os' : List Outgoing} {state₁ state₂ state₃ : Reading} (first : Gained os state₁ state₂)
    (second : Gained os' state₂ state₃) : Gained (os ++ os') state₁ state₃ := by
  obtain ⟨messages, recvs, arrived⟩ := first.recvs
  obtain ⟨messages', recvs', arrived'⟩ := second.recvs
  refine ⟨⟨messages ++ messages', by rw [recvs', recvs, List.append_assoc], ?_⟩,
    fun addr obj found => second.copies addr obj (first.copies addr obj found), second.unlimited⟩
  exact List.rel_append (arrived.imp fun _ _ each => each.mono second.copies) arrived'

/-- How the loop ends with `rest` in front of it. -/
def Loop.atEnd (recvBuf : Slice) (rest : List UInt8) (state : Reading) : Loop :=
  if rest.length < 3 then .finish (recvBuf.data.length - rest.length) state else .leave false state

/-- The loop delivers the messages of the buffer. -/
theorem readLoop_frames {recvBuf : Slice} {rest : List UInt8} (waiting : frames.next rest = .wait)
    {os : List Outgoing} (regular : ∀ o ∈ os, o.Regular) {fuel offset : Nat} {state : Reading}
    (unlimited : state.recvBB.readLengthLimit = 0) (inside : offset ≤ recvBuf.data.length)
    (enough : os.length < fuel) (shape : recvBuf.data.drop offset = (os.map Outgoing.frame).flatten ++ rest) :
    ∃ state', readLoop recvBuf fuel offset state = some (.atEnd recvBuf rest state') ∧ Gained os state state' := by
  induction os generalizing fuel offset state with
  | nil =>
    obtain ⟨fuel, rfl⟩ : ∃ before, fuel = before + 1 := ⟨fuel - 1, by simp at enough; omega⟩
    have here : recvBuf.data.drop offset = rest := by simpa using shape
    refine ⟨state, ?_, ⟨[], (List.append_nil _).symm, .nil⟩, fun _ _ found => found, unlimited⟩
    have count := congrArg List.length here
    rw [List.length_drop] at count
    unfold readLoop Loop.atEnd
    rw [round_wait waiting here inside]
    by_cases few : rest.length < 3
    · have end' : recvBuf.data.length - rest.length = offset := by omega
      rw [if_pos few, if_pos few, end']
    · rw [if_neg few, if_neg few]
  | cons o os ih =>
    obtain ⟨fuel, rfl⟩ : ∃ before, fuel = before + 1 := ⟨fuel - 1, by simp at enough; omega⟩
    have one := regular o List.mem_cons_self
    have front : recvBuf.data.drop offset = o.frame ++ ((os.map Outgoing.frame).flatten ++ rest) := by
      rw [shape, List.map_cons, List.flatten_cons, List.append_assoc]
    have header := o.header one.short front
    have room := header.room
    have small : o.data.length < 2 ^ 62 := Nat.lt_of_le_of_lt one.short (by decide)
    obtain ⟨message, m, read, arrived, extended⟩ := o.read one.numbered small unlimited header.data (by omega)
    have after : recvBuf.data.drop (offset + o.frame.length) = (os.map Outgoing.frame).flatten ++ rest := by
      rw [← List.drop_drop, front, List.drop_left]
    obtain ⟨state', ran, gained⟩ := ih (fun other member => regular other (List.mem_cons_of_mem o member))
      extended.unlimited (by rw [header.whole]; omega) (by simpa using enough) after
    refine ⟨state', ?_, ?_⟩
    · unfold readLoop
      rw [round_short one.short front, read]
      exact ran
    · have first : Gained [o] state ⟨m.heap, m.bb, state.recvs ++ [message]⟩ :=
        ⟨⟨[message], rfl, .cons arrived .nil⟩, extended.copies, extended.unlimited⟩
      exact first.append gained

/-- There are not more frames than bytes. -/
theorem frames_length_le (os : List Outgoing) : os.length ≤ (os.map Outgoing.frame).flatten.length := by
  induction os with
  | nil => exact Nat.le_refl 0
  | cons o os ih =>
    have positive : 0 < o.frame.length := by
      obtain ⟨-, -, -, -, frame⟩ := o.wrote
      rw [frame, frameBytes]
      split <;> exact Nat.zero_lt_succ _
    rw [List.map_cons, List.flatten_cons, List.length_append, List.length_cons]
    omega

/-- What `recvBuf` holds behind a call, where it had come to `buf`, with `rest` not used yet. -/
def leftOver (buf rest : List UInt8) : List UInt8 := if rest.length < 3 then buf.take rest.length else buf

theorem Loop.atEnd_left (recvBuf : Slice) (rest : List UInt8) (state : Reading) (less : rest.length ≤ recvBuf.data.length) :
    ((Loop.atEnd recvBuf rest state).left recvBuf).data = leftOver recvBuf.data rest := by
  unfold Loop.atEnd leftOver
  by_cases few : rest.length < 3
  · rw [if_pos few, if_pos few, Loop.left, Slice.cut, Nat.sub_sub_self less]
  · rw [if_neg few, if_neg few, Loop.left]

/-- A call returns `false` and delivers the messages whose frames are there. -/
theorem read_frames {process : Process} {bytes rest : List UInt8} {os : List Outgoing}
    (unlimited : process.reading.recvBB.readLengthLimit = 0) (arrived : 0 < bytes.length)
    (regular : ∀ o ∈ os, o.Regular) (waiting : frames.next rest = .wait)
    (shape : process.peer.recvBuf.data ++ bytes = (os.map Outgoing.frame).flatten ++ rest) :
    ∃ after, read process ⟨bytes, false⟩ = some (false, after) ∧ Gained os process.reading after.reading ∧
      after.peer.recvBuf.data = leftOver (process.peer.recvBuf.data ++ bytes) rest := by
  obtain ⟨out, ran, result⟩ := read_eq process arrived
  have shape : (process.peer.recvBuf.append bytes).data = (os.map Outgoing.frame).flatten ++ rest := shape
  have fewer := frames_length_le os
  have count : (process.peer.recvBuf.append bytes).data.length =
      (os.map Outgoing.frame).flatten.length + rest.length := by rw [shape, List.length_append]
  have enough : os.length < (process.peer.recvBuf.append bytes).data.length + 1 := by omega
  have front : (process.peer.recvBuf.append bytes).data.drop 0 = (os.map Outgoing.frame).flatten ++ rest := shape
  obtain ⟨state', loop, gained⟩ := readLoop_frames waiting regular unlimited (Nat.zero_le _) enough front
  cases ran.symm.trans loop
  have noError : (Loop.atEnd (process.peer.recvBuf.append bytes) rest state').hasError = false := by
    unfold Loop.atEnd
    split <;> rfl
  have same : (Loop.atEnd (process.peer.recvBuf.append bytes) rest state').state = state' := by
    unfold Loop.atEnd
    split <;> rfl
  rw [noError, same] at result
  exact ⟨_, result, gained, Loop.atEnd_left _ rest state' (by omega)⟩

/-! ## One frame -/

/-- `Read` appends the message, and only this one, and nothing is left of its frame. -/
def Delivers (process : Process) (bytes : List UInt8) (o : Outgoing) : Prop :=
  ∃ hasError after message, read process ⟨bytes, false⟩ = some (hasError, after) ∧
    after.peer.recvs = process.peer.recvs ++ [message] ∧ Arrived o after.heap message ∧
    after.peer.recvBuf.data = []

/-- If the loop adds one message and uses up the buffer, the first round adds the message and ends behind the
buffer. -/
theorem readLoop_single {recvBuf : Slice} {fuel offset next : Nat} {state : Reading} {out : Loop}
    {message : NetMessage} {result : EStateM.Result Panic Memory NetMessage}
    (ran : readLoop recvBuf fuel offset state = some out) (filled : recvBuf.data ≠ [])
    (first : round recvBuf offset state = .after state next result)
    (single : out.state.recvs = state.recvs ++ [message]) (empty : (out.left recvBuf).data = []) :
    (∃ m, result = .ok message m) ∧ recvBuf.data.length ≤ next := by
  cases fuel with
  | zero => cases ran
  | succ fuel =>
    unfold readLoop at ran
    rw [first] at ran
    cases result with
    | error panic m =>
      cases ran
      exact absurd empty filled
    | ok message' m =>
      have later := readLoop_recvs ran
      rw [single] at later
      have same : state.recvs ++ [message'] = state.recvs ++ [message] := by
        apply later.1.eq_of_length_le
        simp
      have added := List.append_cancel_left same
      cases added
      refine ⟨⟨m, rfl⟩, ?_⟩
      by_contra beyond
      exact later.2 (by omega) rfl empty

/-- What a loop over the frame that delivers it is like. -/
structure Single (o : Outgoing) (state : Reading) (recvBuf : Slice) (out : Loop) (message : NetMessage) : Prop where
  filled : recvBuf.data ≠ []
  frame : recvBuf.data.drop 0 = o.frame ++ []
  ran : readLoop recvBuf (recvBuf.data.length + 1) 0 state = some out
  recvs : out.state.recvs = state.recvs ++ [message]
  serial : message.serial = o.serial
  empty : (out.left recvBuf).data = []

section
variable {o : Outgoing} {process : Process} {bytes : List UInt8}

theorem Delivers.single (arrived : 0 < bytes.length) (whole : process.peer.recvBuf.data ++ bytes = o.frame)
    (delivers : Delivers process bytes o) : ∃ out message,
      Single o process.reading (process.peer.recvBuf.append bytes) out message := by
  obtain ⟨hasError, after, message, got, recvs, same, empty⟩ := delivers
  obtain ⟨out, ran, result⟩ := read_eq process arrived
  cases got.symm.trans result
  refine ⟨out, message, ?_, whole.trans (List.append_nil _).symm, ran, recvs, same.serial, empty⟩
  intro nothing
  have count : (process.peer.recvBuf.data ++ bytes).length = 0 := congrArg List.length nothing
  rw [List.length_append] at count
  omega

variable {state : Reading} {recvBuf : Slice} {out : Loop} {message : NetMessage}

theorem Single.short (single : Single o state recvBuf out message) : o.data.length ≤ 65535 := by
  by_contra long
  have first : round recvBuf 0 state = _ := round_long long single.frame
  have ran := single.ran
  by_cases zero : o.data.length % 65536 = 0
  · rw [if_pos zero] at first
    unfold readLoop at ran
    rw [first] at ran
    cases ran
    exact single.filled single.empty
  · rw [if_neg zero] at first
    obtain ⟨-, used⟩ := readLoop_single ran single.filled first single.recvs single.empty
    -- the round ends behind the low half of the length
    have count := congrArg List.length single.frame
    obtain ⟨-, -, -, -, frame⟩ := o.wrote
    rw [frame, frameBytes, if_neg long] at count
    simp only [List.drop_zero, List.append_nil, List.length_cons] at count
    omega

theorem Single.numbered (single : Single o state recvBuf out message) : o.Numbered := by
  by_contra unnumbered
  have request : 0 < o.typeId.val := by
    apply Nat.pos_of_ne_zero
    intro zero
    exact unnumbered (.inl (Fin.ext zero))
  have first : round recvBuf 0 state = _ := round_short single.short single.frame
  obtain ⟨⟨m, misread⟩, -⟩ := readLoop_single single.ran single.filled first single.recvs single.empty
  have input : (state.memory recvBuf (0 + 3)).unread = o.data :=
    (o.header single.short single.frame).data.trans (List.append_nil _)
  have positive := o.misread request (fun numbered => unnumbered (.inr numbered)) input misread
  rw [single.serial] at positive
  exact unnumbered (.inr positive)

end

theorem Outgoing.Regular.delivers {o : Outgoing} {process : Process} {bytes : List UInt8} (regular : o.Regular)
    (arrived : 0 < bytes.length) (whole : process.peer.recvBuf.data ++ bytes = o.frame)
    (unlimited : process.peer.recvBB.readLengthLimit = 0) : Delivers process bytes o := by
  have shape : process.peer.recvBuf.data ++ bytes = ([o].map Outgoing.frame).flatten ++ [] := by
    simpa using whole
  obtain ⟨after, result, gained, left⟩ :=
    read_frames unlimited arrived (by simpa using regular) frames.nonempty shape
  obtain ⟨messages, recvs, same⟩ := gained.recvs
  cases same with
  | cons first none =>
    cases none
    exact ⟨false, after, _, result, recvs, first, left⟩

/-- A frame that is presented to `Read` is delivered if and only if its length is short, and a serial number
was written if one is read. -/
theorem read_delivers_iff (o : Outgoing) (process : Process) (bytes : List UInt8) (arrived : 0 < bytes.length)
    (whole : process.peer.recvBuf.data ++ bytes = o.frame) (unlimited : process.peer.recvBB.readLengthLimit = 0) :
    Delivers process bytes o ↔ (o.typeId = 0 ∨ 0 < o.serial) ∧ o.data.length ≤ 65535 := by
  constructor
  · intro delivers
    obtain ⟨out, message, single⟩ := delivers.single arrived whole
    exact ⟨single.numbered, single.short⟩
  · rintro ⟨numbered, short⟩
    exact Outgoing.Regular.delivers ⟨numbered, short⟩ arrived whole unlimited

/-- The frame of the response, with four bytes of it accumulated before. -/
theorem read_delivers_response :
    Delivers ⟨[], { recvBuf := { data := response.frame.take 4 } }⟩ (response.frame.drop 4) response :=
  (read_delivers_iff response _ _ (by decide +kernel) (List.take_append_drop 4 response.frame) rfl).mpr
    ⟨.inr (by decide), by decide +kernel⟩

/-- The serial number is not written, but it is read. -/
theorem read_loses_wrapped : ¬ ∀ (o : Outgoing) (process : Process) (bytes : List UInt8), 0 < bytes.length →
    process.peer.recvBuf.data ++ bytes = o.frame → process.peer.recvBB.readLengthLimit = 0 →
    o.data.length < 2 ^ 31 → Delivers process bytes o := by
  intro always
  have frame : wrappedRequest.frame = [1, 1, 0, 0] := by decide +kernel
  have data : wrappedRequest.data = [0] := by decide +kernel
  obtain ⟨hasError, after, message, got, recvs, -, -⟩ :=
    always wrappedRequest ⟨[], {}⟩ [1, 1, 0, 0] (by decide) frame.symm rfl (by rw [data]; decide)
  have lost : (read ⟨[], {}⟩ ⟨[1, 1, 0, 0], false⟩).map (fun result => result.2.peer.recvs) = some [] := by
    decide +kernel
  rw [got] at lost
  have nothing : after.peer.recvs = [] := Option.some.inj lost
  rw [nothing] at recvs
  cases recvs

end Xxlib.Go
