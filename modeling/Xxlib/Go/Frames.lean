import Xxlib.Go.RoundTrip
import Xxlib.Go.TcpPeer

/-! Frames: how `sendCore` builds them, and what a round of the loop in `Read` makes of them.

A frame is taken apart as it was built if its length is short, and if a serial number is
written where one is read.
-/

set_option autoImplicit false

namespace Xxlib.Go

open Lib

/-! ## What is sent -/

/-- The arguments of a call of `sendCore`, and the objects at this time. -/
structure Outgoing where
  graph : Graph
  typeId : Fin 3
  serial : Int32
  pkg : IObject
  root : pkg.Root graph.heap
  plain : typeId = 0 → serial = 0

def Outgoing.built (o : Outgoing) : EStateM.Result Panic Memory (List UInt8) :=
  buildFrame (UInt8.ofNat o.typeId) o.serial o.pkg ⟨o.graph.heap, {}⟩

/-- What `sendCore` puts on the queue. -/
def Outgoing.frame (o : Outgoing) : List UInt8 :=
  match o.built with
  | .ok p _ => p
  | .error _ _ => []

/-- The data region of the frame. -/
def Outgoing.data (o : Outgoing) : List UInt8 :=
  match o.built with
  | .ok _ m => m.bb.buf.data.drop 5
  | .error _ _ => []

/-- A header and the data behind it. -/
def frameBytes (typeId : Nat) (data : List UInt8) : List UInt8 :=
  if data.length ≤ 65535 then
    UInt8.ofNat typeId :: UInt8.ofNat data.length :: UInt8.ofNat (data.length >>> 8) :: data
  else
    (UInt8.ofNat typeId ||| 4) :: UInt8.ofNat data.length :: UInt8.ofNat (data.length >>> 8) ::
      UInt8.ofNat (data.length >>> 16) :: UInt8.ofNat (data.length >>> 24) :: data

/-- What becomes of a message. -/
structure Arrived (o : Outgoing) (heap : List Obj) (message : NetMessage) : Prop where
  typeId : message.typeId = o.typeId
  serial : message.serial = o.serial
  pkg : Isomorphic (o.graph.heap.map Obj.kept) heap o.pkg message.pkg

/-! ## The data of a frame -/

theorem rootLink_plain {graph : Graph} {α : Type} {write : Run Unit} {read : Run α} {y : α} (bytes : List UInt8)
    (writes : ∀ m, write m = .ok () (m.appended bytes))
    (reads : ∀ m tail, m.unread = bytes ++ tail → read m = .ok y (m.advanced bytes.length)) :
    (rootLink graph).Codec (fun _ => True) write (fun _ => read) fun _ _ z => z = y := by
  intro s u s' ran
  rw [writes] at ran
  cases ran
  refine ⟨bytes, rfl, fun _ t log _ tail ready _ input _ => ?_⟩
  refine ⟨y, _, (), reads t tail input, unread_advanced input, ?_, ⟨fun _ _ found => found, rfl⟩, rfl⟩
  have holds := ready.holds
  refine ⟨⟨holds.typed, holds.room, holds.made⟩, ready.original, ?_, ready.unlimited⟩
  have inside : t.bb.offset ≤ t.bb.buf.data.length := ready.inside
  have count := congrArg List.length input
  simp only [rootLink, Memory.unread, List.length_drop, List.length_append] at count
  simp only [Memory.advanced]
  omega

theorem readUInt32_eq {m : Memory} {v : UInt32} {tail : List UInt8}
    (input : m.unread = varUInt64Bytes 10 v.toUInt64 ++ tail) :
    readUInt32 m = .ok v (m.advanced (varUInt64Bytes 10 v.toUInt64).length) := by
  have read : readUInt32 m = .ok v.toUInt64.toUInt32 (m.advanced (varUInt64Bytes 10 v.toUInt64).length) :=
    bind_run (readVarUInt64_eq input) rfl
  rwa [UInt32.toUInt32_toUInt64] at read

theorem serial_codec {graph : Graph} {typeId : Nat} {serial : Int32} (positive : 0 < serial ∨ serial = 0)
    (fits : 0 < typeId ↔ 0 < serial) :
    (rootLink graph).Codec (fun _ => True) (writeSerial serial) (fun _ => readSerial typeId)
      fun _ _ y => y = serial := by
  by_cases numbered : 0 < serial
  · have write : writeSerial serial = writeUInt32 serial.toUInt32 := if_pos numbered
    have read : readSerial typeId = do return (← readUInt32).toInt32 := if_pos (fits.mpr numbered)
    rw [write, read]
    have codec : (rootLink graph).Codec (fun _ => True) (writeUInt32 serial.toUInt32) (fun _ => readUInt32)
        fun _ _ y => y = serial.toUInt32 :=
      rootLink_plain _ (fun _ => rfl) fun _ _ input => readUInt32_eq input
    apply codec.inspect
    rintro w _ _ _ rfl
    exact ⟨_, rfl, Int32.toInt32_toUInt32 serial⟩
  · have write : writeSerial serial = pure () := if_neg numbered
    have read : readSerial typeId = pure 0 := if_neg (fits.not.mpr numbered)
    rw [write, read]
    apply Link.Codec.done
    intro _ _
    rcases positive with positive | zero
    · exact absurd positive numbered
    · exact zero.symm

/-! ## The frame -/

/-- The serial number, if it is written, and the package. -/
def writeData (serial : Int32) (pkg : IObject) : Run Unit := do
  writeSerial serial
  writeRoot pkg

/-- The header is put into the five bytes in front of the data. -/
theorem buildFrame_eq {typeId : Nat} {serial : Int32} {pkg : IObject} {m m' : Memory} {u : Unit}
    {data : List UInt8} (wrote : writeData serial pkg (m.appended (List.replicate 5 0)) = .ok u m')
    (shape : m'.bb.buf.data = List.replicate 5 0 ++ data) :
    buildFrame (UInt8.ofNat typeId) serial pkg m = .ok (frameBytes typeId data) m' := by
  obtain ⟨_, m₁, first, second⟩ := bind_ok wrote
  apply bind_run rfl
  apply bind_run first
  apply bind_run second
  apply bind_run rfl
  simp only [shape, List.length_append, List.length_replicate, Nat.add_sub_cancel_left]
  unfold frameBytes
  split <;> rfl

theorem writeData_appends {graph : Graph} {serial : Int32} {pkg : IObject} (root : pkg.Root graph.heap)
    {m m' : Memory} {u : Unit} (wrote : writeData serial pkg m = .ok u m') :
    ∃ bytes, m'.bb.buf.data = m.bb.buf.data ++ bytes := by
  obtain ⟨_, m₁, first, second⟩ := bind_ok wrote
  obtain ⟨bytes, written⟩ := (root_codec graph pkg root).appends _ _ _ second
  unfold writeSerial at first
  split at first
  · cases first
    exact ⟨_, by rw [← List.append_assoc]; exact written⟩
  · cases first
    exact ⟨bytes, written⟩

theorem Holds.writeData {base : Nat} {m : Memory} (holds : Holds base m) (serial : Int32) {pkg : IObject}
    (root : pkg.Root m.heap) : ∃ u m', Go.writeData serial pkg m = .ok u m' := by
  have numbered : ∃ m₁, writeSerial serial m = .ok () m₁ ∧ m₁.heap = m.heap := by
    unfold writeSerial
    split
    · exact ⟨_, rfl, rfl⟩
    · exact ⟨_, rfl, rfl⟩
  obtain ⟨m₁, first, same⟩ := numbered
  have holds₁ : Holds base m₁ :=
    ⟨by rw [same]; exact holds.typed, by rw [same]; exact holds.room, by rw [same]; exact holds.made⟩
  obtain ⟨u, m', second, -, -⟩ := holds₁.writeRoot (by rw [same]; exact root)
  exact ⟨u, m', bind_run first second⟩

/-- `sendCore` builds a frame of every message. -/
theorem Outgoing.wrote (o : Outgoing) : ∃ m, writeData o.serial o.pkg
    (Memory.appended ⟨o.graph.heap, {}⟩ (List.replicate 5 0)) = .ok () m ∧
      m.bb.buf.data = List.replicate 5 0 ++ o.data ∧ o.built = .ok o.frame m ∧
      o.frame = frameBytes o.typeId o.data := by
  have holds : Holds o.graph.heap.length (Memory.appended ⟨o.graph.heap, {}⟩ (List.replicate 5 0)) :=
    o.graph.holds _
  obtain ⟨u, m, wrote⟩ := holds.writeData o.serial o.root
  obtain ⟨bytes, shape⟩ := writeData_appends o.root wrote
  have shape : m.bb.buf.data = List.replicate 5 0 ++ bytes := shape
  have built : o.built = .ok (frameBytes o.typeId bytes) m := buildFrame_eq wrote shape
  have data : o.data = bytes := by
    unfold Outgoing.data
    rw [built]
    simp [shape]
  have frame : o.frame = frameBytes o.typeId bytes := by
    unfold Outgoing.frame
    rw [built]
  rw [data, frame]
  exact ⟨m, wrote, shape, built, rfl⟩

/-- A frame that finds room in the queue is put there. -/
theorem sendCore_queues (o : Outgoing) (peer : TcpPeer) (open' : peer.closed = false)
    (room : peer.sends.length < sendsCapacity) : ∃ heap,
      sendCore (UInt8.ofNat o.typeId) o.serial o.pkg ⟨o.graph.heap, peer⟩ =
        .ok (true, ⟨heap, { peer with sends := peer.sends ++ [o.frame] }⟩) := by
  obtain ⟨m, -, -, built, -⟩ := o.wrote
  refine ⟨m.heap, ?_⟩
  unfold Outgoing.built at built
  unfold sendCore
  simp only [open', Bool.false_eq_true, ↓reduceIte, built, room]

/-! ## Reading the data -/

/-- The serial number is written if it is read. -/
def Outgoing.Numbered (o : Outgoing) : Prop := o.typeId = 0 ∨ 0 < o.serial

theorem message_codec (o : Outgoing) (numbered : o.Numbered) :
    (rootLink o.graph).Codec (fun _ => True) (writeData o.serial o.pkg) (fun _ => readMessage o.typeId)
      fun w _ message => Arrived o w.reader.heap message := by
  have fits : 0 < o.typeId.val ↔ 0 < o.serial := by
    constructor
    · intro request
      rcases numbered with zero | positive
      · rw [zero] at request
        exact absurd request (Nat.lt_irrefl 0)
      · exact positive
    · intro positive
      apply Nat.pos_of_ne_zero
      intro zero
      rw [o.plain (Fin.ext zero)] at positive
      exact absurd positive (by decide)
  have positive : 0 < o.serial ∨ o.serial = 0 := by
    rcases numbered with zero | positive
    · exact .inr (o.plain zero)
    · exact .inl positive
  apply Link.Codec.bind (serial_codec positive fits)
  intro _ serial
  have stable : (rootLink o.graph).Stable fun _ => serial = o.serial := .fixed _
  apply ((root_codec o.graph o.pkg o.root).carry stable fun _ _ => trivial).inspect
  rintro w _ pkg _ ⟨isomorphic, rfl⟩
  exact ⟨_, rfl, rfl, rfl, isomorphic⟩

/-- The memory in which the data of a frame are read. -/
def Reading.memory (state : Reading) (recvBuf : Slice) (offset : Nat) : Memory :=
  ⟨state.heap, { state.recvBB with offset := offset, buf := recvBuf }⟩

/-- How the state of a call goes on with a message. -/
structure Extended (state state' : Reading) (message : NetMessage) : Prop where
  recvs : state'.recvs = state.recvs ++ [message]
  copies : ∀ (addr : Addr) (obj : Obj), state.heap[addr]? = some obj → state'.heap[addr]? = some obj
  unlimited : state'.recvBB.readLengthLimit = 0

theorem Outgoing.read (o : Outgoing) (numbered : o.Numbered) (small : o.data.length < 2 ^ 62) {state : Reading}
    (unlimited : state.recvBB.readLengthLimit = 0) {recvBuf : Slice} {offset : Nat} {tail : List UInt8}
    (shape : recvBuf.data.drop offset = o.data ++ tail) (inside : offset ≤ recvBuf.data.length) :
    ∃ message m, readMessage o.typeId (state.memory recvBuf offset) = .ok message m ∧
      Arrived o m.heap message ∧ Extended state ⟨m.heap, m.bb, state.recvs ++ [message]⟩ message := by
  obtain ⟨m, wrote, data, -, -⟩ := o.wrote
  obtain ⟨bytes, written, reads⟩ := message_codec o numbered _ _ _ wrote
  obtain rfl : bytes = o.data := by
    have written : m.bb.buf.data = List.replicate 5 0 ++ bytes := written
    exact List.append_cancel_left (written.symm.trans data)
  have short : m.bb.buf.data.length < 2 ^ 63 := by
    rw [data, List.length_append, List.length_replicate]
    omega
  have ready : Ready o.graph ⟨Memory.appended ⟨o.graph.heap, {}⟩ (List.replicate 5 0),
      state.memory recvBuf offset, ()⟩ :=
    ⟨o.graph.holds _, List.prefix_rfl, inside, unlimited⟩
  obtain ⟨message, t, _, read, -, ready', kept, arrived⟩ :=
    reads short _ () o.data.length tail ready trivial shape (Nat.le_refl _)
  exact ⟨message, t, read, arrived, rfl, kept.copies, ready'.unlimited⟩

/-! ## Reading the header -/

theorem typeId_bits : ∀ typeId : Fin 3, ¬ (UInt8.ofNat typeId).toNat &&& 4 > 0 ∧
    (UInt8.ofNat typeId).toNat &&& 3 = typeId ∧ (UInt8.ofNat typeId ||| 4).toNat &&& 4 > 0 ∧
    (UInt8.ofNat typeId ||| 4).toNat &&& 3 = typeId := by decide

/-- A package takes a byte at least. -/
theorem Outgoing.data_pos (o : Outgoing) : 0 < o.data.length := by
  obtain ⟨m, wrote, data, -, -⟩ := o.wrote
  obtain ⟨_, m₁, first, second⟩ := bind_ok wrote
  rw [writeRoot_eq] at second
  have longer := (pointers (m₁.heap.length + 2)).positive _ _ _ _ second
  have least : 5 ≤ m₁.bb.buf.data.length := by
    unfold writeSerial at first
    split at first
    · cases first
      simp [Memory.appended, Slice.append]
    · cases first
      simp [Memory.appended, Slice.append]
  have more : m₁.bb.buf.data.length < m.bb.buf.data.length := longer
  rw [data, List.length_append, List.length_replicate] at more
  omega

/-- What follows on the data of a frame. -/
def Round.after (state : Reading) (next : Nat) : EStateM.Result Panic Memory NetMessage → Round
  | .error _ m => .leave true { state with heap := m.heap, recvBB := m.bb }
  | .ok message m => .next next ⟨m.heap, m.bb, state.recvs ++ [message]⟩

section
variable {o : Outgoing} {recvBuf : Slice} {offset : Nat} {state : Reading} {tail : List UInt8}

/-- What is read of a header of three bytes. -/
structure ShortHeader (o : Outgoing) (buf : List UInt8) (offset : Nat) (tail : List UInt8) : Prop where
  typeId : byteAt buf offset &&& 3 = o.typeId
  short : isBig buf offset = false
  length : dataLen buf offset = o.data.length
  data : buf.drop (offset + 3) = o.data ++ tail
  whole : o.frame.length = 3 + o.data.length
  room : offset + 3 + o.data.length ≤ buf.length

theorem Outgoing.header {buf : List UInt8} (short : o.data.length ≤ 65535)
    (shape : buf.drop offset = o.frame ++ tail) : ShortHeader o buf offset tail := by
  obtain ⟨-, -, -, -, frame⟩ := o.wrote
  have frame : o.frame = UInt8.ofNat o.typeId :: UInt8.ofNat o.data.length ::
      UInt8.ofNat (o.data.length >>> 8) :: o.data := by
    rw [frame, frameBytes, if_pos short]
  obtain ⟨plain, type, -, -⟩ := typeId_bits o.typeId
  have typeId : byteAt buf offset = (UInt8.ofNat o.typeId).toNat := by
    rw [frame] at shape
    exact byteAt_cons_of_drop shape
  have notBig : isBig buf offset = false := by
    rw [isBig, typeId]
    exact decide_eq_false plain
  have data : buf.drop (offset + 3) = o.data ++ tail := by
    rw [← List.drop_drop, shape, frame]
    rfl
  refine ⟨by rw [typeId, type], notBig, ?length, data, by rw [frame]; simp only [List.length_cons]; omega, ?room⟩
  case length =>
    rw [dataLen, notBig, byteAt_of_drop shape, byteAt_of_drop shape, frame]
    simp only [byteAt, List.cons_append, List.getD_cons_succ, List.getD_cons_zero, UInt8.toNat_ofNat',
      Nat.shiftLeft_eq, Nat.shiftRight_eq_div_pow, Bool.false_eq_true, ↓reduceIte]
    omega
  case room =>
    have count := congrArg List.length data
    have positive := o.data_pos
    rw [List.length_drop, List.length_append] at count
    omega

theorem round_short (short : o.data.length ≤ 65535) (shape : recvBuf.data.drop offset = o.frame ++ tail) :
    round recvBuf offset state =
      .after state (offset + o.frame.length) (readMessage o.typeId (state.memory recvBuf (offset + 3))) := by
  have header := o.header short shape
  have positive := o.data_pos
  have room := header.room
  have three : headerLen recvBuf.data offset = 3 := by
    rw [headerLen, header.short]
    rfl
  have notThree : ¬ o.typeId.val = 3 := by omega
  unfold round
  simp only [header.short, three, header.length, header.typeId, notThree, Bool.false_eq_true, false_and,
    ↓reduceIte]
  rw [if_pos (by omega), if_neg (by omega), if_neg (by omega), header.whole, ← Nat.add_assoc]
  rfl

/-- Of a long length only the low half is read: the other two bytes are shifted out of a byte. -/
theorem round_long (long : ¬ o.data.length ≤ 65535) (shape : recvBuf.data.drop offset = o.frame ++ tail) :
    round recvBuf offset state =
      if o.data.length % 65536 = 0 then .leave true state
      else .after state (offset + 5 + o.data.length % 65536)
        (readMessage o.typeId (state.memory recvBuf (offset + 5))) := by
  obtain ⟨-, -, -, -, frame⟩ := o.wrote
  have frame : o.frame = (UInt8.ofNat o.typeId ||| 4) :: UInt8.ofNat o.data.length ::
      UInt8.ofNat (o.data.length >>> 8) :: UInt8.ofNat (o.data.length >>> 16) ::
      UInt8.ofNat (o.data.length >>> 24) :: o.data := by
    rw [frame, frameBytes, if_neg long]
  obtain ⟨-, -, big, type⟩ := typeId_bits o.typeId
  have typeId : byteAt recvBuf.data offset = (UInt8.ofNat o.typeId ||| 4).toNat := by
    rw [frame] at shape
    exact byteAt_cons_of_drop shape
  have large : isBig recvBuf.data offset = true := by
    rw [isBig, typeId]
    exact decide_eq_true big
  have header : headerLen recvBuf.data offset = 5 := by
    rw [headerLen, large]
    rfl
  -- the two high bytes are shifted as bytes, and nothing is left of them
  have lost : ∀ b : Nat, shiftByte b 16 = 0 ∧ shiftByte b 24 = 0 := by
    intro b
    unfold shiftByte
    rw [Nat.shiftLeft_eq, Nat.shiftLeft_eq]
    omega
  have length : dataLen recvBuf.data offset = o.data.length % 65536 := by
    rw [dataLen, large, (lost _).1, (lost _).2, byteAt_of_drop shape, byteAt_of_drop shape, frame]
    simp only [byteAt, List.cons_append, List.getD_cons_succ, List.getD_cons_zero, UInt8.toNat_ofNat',
      Nat.shiftLeft_eq, Nat.shiftRight_eq_div_pow, ↓reduceIte]
    omega
  have room : offset + 5 + o.data.length ≤ recvBuf.data.length := by
    have count := congrArg List.length shape
    rw [List.length_drop, List.length_append, frame] at count
    simp only [List.length_cons] at count
    omega
  have notThree : ¬ o.typeId.val = 3 := by omega
  unfold round
  simp only [large, header, length, typeId, type, notThree, true_and, ↓reduceIte]
  rw [if_pos (by omega), if_neg (by omega)]
  by_cases zero : o.data.length % 65536 = 0
  · rw [if_pos (by omega), if_pos zero]
  · rw [if_neg (by omega), if_neg zero, if_neg (by omega)]
    rfl

end

/-! ## The loop -/

/-- Whether the call fails. -/
def Loop.hasError : Loop → Bool
  | .finish _ _ => false
  | .leave hasError _ => hasError

def Loop.state : Loop → Reading
  | .finish _ state => state
  | .leave _ state => state

/-- What `recvBuf` is afterwards. -/
def Loop.left (recvBuf : Slice) : Loop → Slice
  | .finish offset _ => recvBuf.cut (recvBuf.data.length - offset)
  | .leave _ _ => recvBuf

section
variable {recvBuf : Slice} {offset offset' : Nat} {state state' : Reading} {fuel : Nat} {out : Loop}

/-- What a round can do. -/
theorem round_cases (recvBuf : Slice) (offset : Nat) (state : Reading) :
    (round recvBuf offset state = .finish ∧ recvBuf.data.length < offset + 3) ∨
      (∃ hasError state', round recvBuf offset state = .leave hasError state' ∧ state'.recvs = state.recvs) ∨
      ∃ offset' state' message, round recvBuf offset state = .next offset' state' ∧
        state'.recvs = state.recvs ++ [message] ∧ offset < offset' ∧ offset' ≤ recvBuf.data.length := by
  simp only [round]
  split
  · split
    · exact .inr (.inl ⟨_, _, rfl, rfl⟩)
    · split
      · exact .inr (.inl ⟨_, _, rfl, rfl⟩)
      · next some =>
        split
        · exact .inr (.inl ⟨_, _, rfl, rfl⟩)
        · next whole =>
          split
          · exact .inr (.inl ⟨_, _, rfl, rfl⟩)
          · split
            · exact .inr (.inl ⟨_, _, rfl, rfl⟩)
            · exact .inr (.inr ⟨_, _, _, rfl, rfl, by omega, by omega⟩)
  · exact .inl ⟨rfl, by omega⟩

/-- The loop ends, as every round but the last one gets further. -/
theorem readLoop_returns (enough : recvBuf.data.length - offset < fuel) :
    ∃ out, readLoop recvBuf fuel offset state = some out := by
  induction fuel generalizing offset state with
  | zero => omega
  | succ fuel ih =>
    unfold readLoop
    rcases round_cases recvBuf offset state with ⟨finish, -⟩ | ⟨_, _, leave, -⟩ | ⟨offset', state', _, next, -, more, most⟩
    · exact ⟨_, by rw [finish]⟩
    · exact ⟨_, by rw [leave]⟩
    · rw [next]
      exact ih (by omega)

/-- The messages so far stay. If none is added, the rest of the buffer was not used up. -/
theorem readLoop_recvs (ran : readLoop recvBuf fuel offset state = some out) :
    state.recvs <+: out.state.recvs ∧
      (offset < recvBuf.data.length → out.state.recvs = state.recvs → (out.left recvBuf).data ≠ []) := by
  induction fuel generalizing offset state with
  | zero => cases ran
  | succ fuel ih =>
    unfold readLoop at ran
    rcases round_cases recvBuf offset state with ⟨finish, -⟩ | ⟨_, state', leave, same⟩ | ⟨_, state', message, next, more, -⟩
    · rw [finish] at ran
      cases ran
      refine ⟨List.prefix_rfl, fun inside _ empty => ?_⟩
      have count := congrArg List.length empty
      simp only [Loop.left, Slice.cut, List.length_take, List.length_nil] at count
      omega
    · rw [leave] at ran
      cases ran
      refine ⟨by rw [Loop.state, same], fun inside _ empty => ?_⟩
      rw [Loop.left] at empty
      rw [empty] at inside
      exact absurd inside (Nat.not_lt_zero _)
    · rw [next] at ran
      have later := (ih ran).1
      rw [more] at later
      refine ⟨(List.prefix_append _ _).trans later, fun _ same => ?_⟩
      have count := later.length_le
      rw [same, List.length_append, List.length_singleton] at count
      omega

end

theorem read_eq (process : Process) {bytes : List UInt8} (arrived : 0 < bytes.length) :
    ∃ out, readLoop (process.peer.recvBuf.append bytes) ((process.peer.recvBuf.append bytes).data.length + 1) 0
        process.reading = some out ∧
      read process ⟨bytes, false⟩ =
        some (out.hasError, process.after out.state (out.left (process.peer.recvBuf.append bytes))) := by
  obtain ⟨out, ran⟩ : ∃ out, readLoop (process.peer.recvBuf.append bytes)
      ((process.peer.recvBuf.append bytes).data.length + 1) 0 process.reading = some out :=
    readLoop_returns (by omega)
  refine ⟨out, ran, ?_⟩
  simp only [read, Bool.false_eq_true, ↓reduceIte, gt_iff_lt, arrived, ran, Option.map_some]
  cases out <;> rfl

/-! ## A serial number that was not written -/

/-- Without a serial number the data are the package: a zero, or a package id and more. -/
theorem Outgoing.data_unnumbered (o : Outgoing) (unnumbered : ¬ 0 < o.serial) :
    o.data = [0] ∨ ∃ kind rest, o.data = varUInt64Bytes 10 (Kind.packageId kind).toUInt64 ++ rest := by
  obtain ⟨m, wrote, data, -, -⟩ := o.wrote
  obtain ⟨_, m₁, first, second⟩ := bind_ok wrote
  have nothing : writeSerial o.serial = pure () := if_neg unnumbered
  rw [nothing] at first
  cases first
  rw [writeRoot_eq] at second
  have zero (ran : append [0] (Memory.begun (Memory.appended ⟨o.graph.heap, {}⟩ (List.replicate 5 0))) =
      .ok () m) : o.data = [0] := by
    cases ran
    exact (List.append_cancel_left data).symm
  cases pkg : o.pkg with
  | nil =>
    rw [pkg] at second
    exact .inl (zero second)
  | typedNil kind =>
    rw [pkg] at second
    exact .inl (zero second)
  | ptr addr =>
    rw [pkg] at second
    obtain ⟨obj, -, ⟨offset, known, -⟩ | ⟨-, body⟩⟩ := writeIObject_ptr second
    · cases known
    · obtain ⟨bytes, written⟩ := ((pointers _).body obj).appends _ _ _ body
      have written : m.bb.buf.data = List.replicate 5 0 ++ headBytes obj.kind _ ++ bytes := written
      rw [data, List.append_assoc, headBytes, List.append_assoc] at written
      exact .inr ⟨obj.kind, _, List.append_cancel_left written⟩

theorem packageId_serial (kind : Kind) : 0 < kind.packageId.toUInt32.toInt32 ∧
    kind.packageId.toUInt32.toUInt64 = kind.packageId.toUInt64 := by
  cases kind <;> decide

theorem readRoot_end {t : Memory} (nothing : t.unread = []) {r : IObject} {t' : Memory} :
    readRoot t ≠ .ok r t' := by
  intro ran
  rw [readRoot_eq] at ran
  obtain ⟨_, _, first, -⟩ := bind_ok ran
  obtain ⟨_, _, number, -⟩ := bind_ok first
  have byte : t.begunRead.bb.buf.data[t.begunRead.bb.offset]? = none := by
    rw [← List.head?_drop]
    exact congrArg List.head? nothing
  simp only [readVarUInt64, readVarUInt64Loop, byte] at number
  cases number

/-- The package id is taken for the serial number. -/
theorem Outgoing.misread (o : Outgoing) (request : 0 < o.typeId.val) (unnumbered : ¬ 0 < o.serial) {t : Memory}
    (input : t.unread = o.data) {message : NetMessage} {m : Memory} (ran : readMessage o.typeId t = .ok message m) :
    0 < message.serial := by
  obtain ⟨serial, t₁, first, rest⟩ := bind_ok ran
  obtain ⟨pkg, t₂, second, last⟩ := bind_ok rest
  cases last
  have read : readSerial o.typeId = do return (← readUInt32).toInt32 := if_pos request
  rw [read] at first
  obtain ⟨number, t₃, numberRead, converted⟩ := bind_ok first
  cases converted
  rcases o.data_unnumbered unnumbered with zero | ⟨kind, more, head⟩
  · have input : t.unread = varUInt64Bytes 10 (0 : UInt32).toUInt64 ++ [] := input.trans zero
    rw [readUInt32_eq input] at numberRead
    cases numberRead
    exact absurd second (readRoot_end (unread_advanced input))
  · obtain ⟨positive, same⟩ := packageId_serial kind
    have input : t.unread = varUInt64Bytes 10 kind.packageId.toUInt32.toUInt64 ++ more := by
      rw [input, head, same]
    rw [readUInt32_eq input] at numberRead
    cases numberRead
    exact positive

/-! ## A response, a request and a notice -/

/-- A response with an object that is its own parent. -/
def response : Outgoing where
  graph := ownParent
  typeId := 2
  serial := 300
  pkg := .ptr 0
  root := Nat.zero_lt_succ _
  plain := fun request => absurd request (by decide)

/-- A request without package, behind the largest serial number. -/
def wrappedRequest : Outgoing where
  graph := ⟨[], by simp⟩
  typeId := 1
  serial := Int32.ofInt (-2147483648)
  pkg := .nil
  root := trivial
  plain := fun request => absurd request (by decide)

/-- A message without package. -/
def notice : Outgoing where
  graph := ⟨[], by simp⟩
  typeId := 0
  serial := 0
  pkg := .nil
  root := trivial
  plain := fun _ => rfl

end Xxlib.Go
