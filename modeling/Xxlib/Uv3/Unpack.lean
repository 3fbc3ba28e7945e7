import Xxlib.Lib.Bytes
import Xxlib.Lib.Framing

/-! Taking packets out of a stream: `Unpack` of `UvTcpBasePeer` and `UvUdpKcpPeer`
(`test_uv_3/xx_uv.h`).

A packet has a length of four bytes in front. The offset is a `uint32_t`, the length
an `int`, and both are added as `uint32_t`.
-/

set_option autoImplicit false

namespace Xxlib.Uv3

open Lib (byteAt byteAt_append byteAt_drop)

/-- The four bytes from `offset` on as an `int`. -/
def readLen (buf : List UInt8) (offset : Nat) : Int :=
  Int.bmod (byteAt buf offset + (byteAt buf (offset + 1) <<< 8) + (byteAt buf (offset + 2) <<< 16) +
    (byteAt buf (offset + 3) <<< 24) : Nat) (2 ^ 32)

/-- `a + b` as `uint32_t`. -/
def add32 (a b : Int) : Nat := ((a + b) % 2 ^ 32).toNat

/-- `Buffer::RemoveFront` -/
def removeFront (buf : List UInt8) (len : Nat) : List UInt8 := buf.drop len

/-- What a call of `Unpack` leaves: its result, the packets it handed on, and the buffer. -/
structure Unpacked where
  result : Int
  packs : List (List UInt8)
  buf : List UInt8
  deriving DecidableEq

/-- The loop of `Unpack`; `none` if it takes more than `fuel` rounds. -/
def unpackLoop (handlePack : List UInt8 → Int) (buf : List UInt8) : Nat → Nat → Option Unpacked
  | 0, _ => none
  | fuel + 1, offset =>
      if add32 offset 4 ≤ buf.length then
        let len := readLen buf offset
        if len ≤ 0 then some ⟨-1, [], buf⟩
        else if add32 (add32 offset 4) len > buf.length then some ⟨0, [], removeFront buf offset⟩
        else
          let offset := add32 offset 4
          let pack := (buf.drop offset).take len.toNat
          let r := handlePack pack
          if r ≠ 0 then some ⟨r, [pack], buf⟩
          else
            (unpackLoop handlePack buf fuel (add32 offset len)).map fun rest =>
              { rest with packs := pack :: rest.packs }
      else some ⟨0, [], removeFront buf offset⟩

def unpack (handlePack : List UInt8 → Int) (buf recvBuf : List UInt8) : Option Unpacked :=
  let buf := buf ++ recvBuf
  unpackLoop handlePack buf (buf.length + 1) 0

def UvTcpBasePeer.unpack : (List UInt8 → Int) → List UInt8 → List UInt8 → Option Unpacked := Uv3.unpack

def UvUdpKcpPeer.unpack : (List UInt8 → Int) → List UInt8 → List UInt8 → Option Unpacked := Uv3.unpack

/-- Feed the chunks one by one, and stop at the first result that is not zero. -/
def feed (unpack : (List UInt8 → Int) → List UInt8 → List UInt8 → Option Unpacked)
    (handlePack : List UInt8 → Int) (buf : List UInt8) : List (List UInt8) → Option Unpacked
  | [] => some ⟨0, [], buf⟩
  | chunk :: chunks => do
      let first ← unpack handlePack buf chunk
      if first.result ≠ 0 then return first
      let rest ← feed unpack handlePack first.buf chunks
      return { rest with packs := first.packs ++ rest.packs }

/-! ## Packets as frames -/

section
variable {buf more : List UInt8} {offset : Nat}

theorem readLen_append (bound : 4 ≤ buf.length) : readLen (buf ++ more) 0 = readLen buf 0 := by
  unfold readLen
  rw [byteAt_append (by omega), byteAt_append (by omega), byteAt_append (by omega),
    byteAt_append (by omega)]

theorem readLen_drop (buf : List UInt8) (offset : Nat) :
    readLen (buf.drop offset) 0 = readLen buf offset := by
  unfold readLen
  simp only [byteAt_drop]
  rfl

end

theorem readLen_lt (buf : List UInt8) (offset : Nat) : readLen buf offset < 2 ^ 31 := by
  unfold readLen
  exact Int.bmod_lt (by decide)

def nextPack (input : List UInt8) : Lib.Verdict :=
  if input.length < 4 then .wait
  else if readLen input 0 ≤ 0 then .bad
  else if (input.length : Int) < 4 + readLen input 0 then .wait
  else .frame (4 + (readLen input 0).toNat)

/-- A packet with its header is a frame. -/
def packs : Lib.Framer UInt8 where
  next := nextPack
  nonempty := rfl
  positive := by
    intro input n found
    unfold nextPack at found
    split at found <;> (try split at found) <;> (try split at found) <;> simp at found
    omega
  bound := by
    intro input n found
    unfold nextPack at found
    split at found <;> (try split at found) <;> (try split at found) <;> simp at found
    omega
  frame_append := by
    intro input n found more
    unfold nextPack at found ⊢
    split at found
    · cases found
    · next long =>
      rw [readLen_append (by omega), List.length_append]
      split at found
      · cases found
      · split at found
        · cases found
        · rw [if_neg (by omega), if_neg (by omega), if_neg (by omega)]
          exact found
  bad_append := by
    intro input found more
    unfold nextPack at found ⊢
    split at found
    · cases found
    · rw [readLen_append (by omega), List.length_append]
      split at found
      · rw [if_neg (by omega), if_pos (by assumption)]
      · split at found <;> cases found

/-- What a call leaves, in terms of the frames. -/
def summary (buf : List UInt8) (drained : List (List UInt8) × Option (List UInt8)) : Unpacked :=
  match drained with
  | (frames, none) => ⟨-1, frames.map (List.drop 4), buf⟩
  | (frames, some rest) => ⟨0, frames.map (List.drop 4), rest⟩

theorem add32_eq {a b : Int} (nonneg : 0 ≤ a + b) (small : a + b < 2 ^ 32) : (add32 a b : Int) = a + b := by
  unfold add32
  omega

/-- The verdict on what lies behind the offset, as the loop tests it. -/
theorem next_drop (buf : List UInt8) (offset : Nat) (inside : offset ≤ buf.length) :
    packs.next (buf.drop offset) =
      if buf.length < offset + 4 then .wait
      else if readLen buf offset ≤ 0 then .bad
      else if (buf.length : Int) < offset + 4 + readLen buf offset then .wait
      else .frame (4 + (readLen buf offset).toNat) := by
  show nextPack (buf.drop offset) = _
  unfold nextPack
  rw [readLen_drop, List.length_drop]
  by_cases short : buf.length < offset + 4
  · rw [if_pos short, if_pos (by omega)]
  · rw [if_neg short, if_neg (by omega)]
    by_cases invalid : readLen buf offset ≤ 0
    · rw [if_pos invalid, if_pos invalid]
    · rw [if_neg invalid, if_neg invalid]
      by_cases missing : (buf.length : Int) < offset + 4 + readLen buf offset
      · rw [if_pos missing, if_pos (by omega)]
      · rw [if_neg missing, if_neg (by omega)]

theorem unpackLoop_eq (buf : List UInt8) (small : buf.length < 2 ^ 31) (fuel offset : Nat)
    (inside : offset ≤ buf.length) (enough : buf.length - offset < fuel) :
    unpackLoop (fun _ => 0) buf fuel offset = some (summary buf (packs.drain (buf.drop offset))) := by
  induction fuel generalizing offset with
  | zero => omega
  | succ fuel ih =>
    have verdict := next_drop buf offset inside
    have header : (add32 offset 4 : Int) = offset + 4 := add32_eq (by omega) (by omega)
    have limit := readLen_lt buf offset
    unfold unpackLoop
    by_cases short : buf.length < offset + 4
    · rw [if_pos short] at verdict
      rw [if_neg (by omega), Lib.Framer.drain_wait verdict]
      rfl
    · rw [if_neg short] at verdict
      rw [if_pos (by omega)]
      by_cases invalid : readLen buf offset ≤ 0
      · rw [if_pos invalid] at verdict
        simp only [if_pos invalid]
        rw [Lib.Framer.drain_bad verdict]
        rfl
      · rw [if_neg invalid] at verdict
        simp only [if_neg invalid]
        -- No sum of the loop leaves the range of `uint32_t`.
        have whole : (add32 (add32 offset 4) (readLen buf offset) : Int) = offset + 4 + readLen buf offset := by
          rw [add32_eq (by omega) (by omega), header]
        by_cases missing : (buf.length : Int) < offset + 4 + readLen buf offset
        · rw [if_pos missing] at verdict
          rw [if_pos (by omega), Lib.Framer.drain_wait verdict]
          rfl
        · rw [if_neg missing] at verdict
          rw [if_neg (by omega), Lib.Framer.drain_frame verdict]
          have next : add32 (add32 offset 4) (readLen buf offset) = offset + (4 + (readLen buf offset).toNat) := by
            omega
          have start : add32 offset 4 = offset + 4 := by omega
          simp only [ne_eq, not_true_eq_false, ↓reduceIte, next]
          rw [ih _ (by omega) (by omega), List.drop_drop, start]
          have pack : ((buf.drop offset).take (4 + (readLen buf offset).toNat)).drop 4 =
              (buf.drop (offset + 4)).take (readLen buf offset).toNat := by
            rw [List.drop_take, List.drop_drop, Nat.add_sub_cancel_left]
          cases (packs.drain (buf.drop (offset + (4 + (readLen buf offset).toNat)))) with
          | mk frames rest => cases rest <;> simp [summary, pack]

theorem unpack_eq (buf recvBuf : List UInt8) (small : (buf ++ recvBuf).length < 2 ^ 31) :
    unpack (fun _ => 0) buf recvBuf = some (summary (buf ++ recvBuf) (packs.drain (buf ++ recvBuf))) :=
  unpackLoop_eq (buf ++ recvBuf) small _ 0 (Nat.zero_le _) (by omega)

theorem feed_eq (chunks : List (List UInt8)) (buf : List UInt8)
    (small : (buf ++ chunks.flatten).length < 2 ^ 31) (waiting : packs.next buf = .wait) :
    ∃ last, feed unpack (fun _ => 0) buf chunks = some last ∧
      last.packs = (packs.drain (buf ++ chunks.flatten)).1.map (List.drop 4) ∧
      ((packs.drain (buf ++ chunks.flatten)).2 = none ∧ last.result = -1 ∨
        (packs.drain (buf ++ chunks.flatten)).2 = some last.buf ∧ last.result = 0) := by
  induction chunks generalizing buf with
  | nil =>
    rw [List.flatten_nil, List.append_nil, Lib.Framer.drain_wait waiting]
    exact ⟨_, rfl, rfl, .inr ⟨rfl, rfl⟩⟩
  | cons chunk chunks ih =>
    rw [List.flatten_cons, ← List.append_assoc] at small ⊢
    have first : (buf ++ chunk).length < 2 ^ 31 := by
      rw [List.length_append] at small
      omega
    unfold feed
    rw [unpack_eq buf chunk first]
    cases drained : packs.drain (buf ++ chunk) with
    | mk frames rest =>
      have second : (packs.drain (buf ++ chunk)).2 = rest := by rw [drained]
      cases rest with
      | none =>
        rw [Lib.Framer.drain_append_bad second, drained]
        exact ⟨_, rfl, rfl, .inl ⟨rfl, rfl⟩⟩
      | some rest =>
        have shorter : (rest ++ chunks.flatten).length ≤ (buf ++ chunk ++ chunks.flatten).length := by
          have whole := congrArg List.length (Lib.Framer.drain_flatten second)
          simp only [List.length_append] at whole ⊢
          omega
        obtain ⟨last, fed, delivered, ends⟩ := ih rest (Nat.lt_of_le_of_lt shorter small)
          (Lib.Framer.drain_rest second)
        rw [Lib.Framer.drain_append second, drained]
        refine ⟨{ last with packs := frames.map (List.drop 4) ++ last.packs }, ?_, ?_, ends⟩
        · simp [summary, fed]
        · rw [delivered, List.map_append]

/-! ## Chunk invariance -/

/-- A packet as it is sent: the length and the payload. -/
def IsPacket (payload packet : List UInt8) : Prop :=
  packet.drop 4 = payload ∧ 4 ≤ packet.length ∧ readLen packet 0 = payload.length ∧ 0 < payload.length

/-- However a stream is cut, `unpack` delivers what it delivers from the whole stream, and keeps what
follows the last complete packet. -/
def ChunkInvariant (unpack : (List UInt8 → Int) → List UInt8 → List UInt8 → Option Unpacked) : Prop :=
  ∀ chunks : List (List UInt8), chunks.flatten.length < 2 ^ 31 →
    ∃ pieces whole, feed unpack (fun _ => 0) [] chunks = some pieces ∧
      unpack (fun _ => 0) [] chunks.flatten = some whole ∧
      pieces.packs = whole.packs ∧ pieces.result = whole.result ∧
      (whole.result = 0 ∨ whole.result = -1) ∧
      (whole.result = 0 → pieces.buf = whole.buf ∧
        (∃ packets, List.Forall₂ IsPacket whole.packs packets ∧
          packets.flatten ++ whole.buf = chunks.flatten) ∧
        (4 ≤ whole.buf.length → 0 < readLen whole.buf 0 ∧
          (whole.buf.length : Int) < 4 + readLen whole.buf 0))

theorem drain_packets (input : List UInt8) :
    List.Forall₂ IsPacket ((packs.drain input).1.map (List.drop 4)) (packs.drain input).1 := by
  induction input using packs.drain_induction with
  | wait input found =>
    rw [Lib.Framer.drain_wait found]
    exact .nil
  | bad input found =>
    rw [Lib.Framer.drain_bad found]
    exact .nil
  | frame input n found ih =>
    have bound := packs.bound found
    rw [Lib.Framer.drain_frame found, List.map_cons]
    refine .cons ?_ ih
    have verdict : nextPack input = .frame n := found
    unfold nextPack at verdict
    split at verdict
    · cases verdict
    · split at verdict
      · cases verdict
      · split at verdict
        · cases verdict
        · simp only [Lib.Verdict.frame.injEq] at verdict
          have header : readLen (input.take n) 0 = readLen input 0 := by
            conv_rhs => rw [← List.take_append_drop n input]
            rw [readLen_append (by rw [List.length_take]; omega)]
          refine ⟨rfl, ?_, ?_, ?_⟩
          · rw [List.length_take]
            omega
          · rw [header, List.length_drop, List.length_take]
            omega
          · rw [List.length_drop, List.length_take]
            omega

theorem next_wait_iff (input : List UInt8) (waiting : packs.next input = .wait) (long : 4 ≤ input.length) :
    0 < readLen input 0 ∧ (input.length : Int) < 4 + readLen input 0 := by
  have verdict : nextPack input = .wait := waiting
  unfold nextPack at verdict
  rw [if_neg (by omega)] at verdict
  split at verdict
  · cases verdict
  · split at verdict
    · constructor <;> omega
    · cases verdict

theorem unpack_invariant : ChunkInvariant unpack := by
  intro chunks small
  obtain ⟨pieces, fed, delivered, ends⟩ := feed_eq chunks [] small rfl
  rw [List.nil_append] at delivered ends
  have whole := unpack_eq [] chunks.flatten small
  rw [List.nil_append] at whole
  refine ⟨pieces, _, fed, whole, ?_⟩
  have packets := drain_packets chunks.flatten
  cases drained : packs.drain chunks.flatten with
  | mk frames rest =>
    rw [drained] at delivered ends packets
    rcases ends with ⟨none', result⟩ | ⟨some', result⟩
    · cases none'
      exact ⟨delivered, result, .inr rfl, fun zero => absurd zero (show ¬ (-1 : Int) = 0 by decide)⟩
    · cases some'
      have second : (packs.drain chunks.flatten).2 = some pieces.buf := by rw [drained]
      refine ⟨delivered, result, .inl rfl, fun _ => ⟨rfl, ⟨frames, packets, ?_⟩, ?_⟩⟩
      · have flat := Lib.Framer.drain_flatten second
        rw [drained] at flat
        exact flat
      · exact next_wait_iff _ (Lib.Framer.drain_rest second)

/-- Both peers take the same packets out of a stream however it is cut. -/
theorem unpack_chunk_invariant : ChunkInvariant UvTcpBasePeer.unpack ∧ ChunkInvariant UvUdpKcpPeer.unpack :=
  ⟨unpack_invariant, unpack_invariant⟩

end Xxlib.Uv3
