import Xxlib.Kcp.Steps

/-! The loop of `ikcp_input`: over any bytes, and over the datagrams that `ikcp_flush` makes. -/

set_option autoImplicit false

namespace Xxlib.Kcp

open Lib (toInt32 toInt32_of_lt)

/-- A segment as it is sent. -/
def wire (seg : Ikcpseg) : List UInt8 := ikcpEncodeSeg seg ++ seg.data

/-- A segment as it arrives. -/
def Ikcpseg.received (seg : Ikcpseg) : Ikcpseg := seg.header.segment seg.conv seg.data

def KnownCmd (cmd : UInt32) : Prop := cmd = ikcpCmdPush ∨ cmd = ikcpCmdAck ∨ cmd = ikcpCmdWask ∨ cmd = ikcpCmdWins

instance (cmd : UInt32) : Decidable (KnownCmd cmd) := inferInstanceAs (Decidable (_ ∨ _ ∨ _ ∨ _))

section
variable {overhead : Nat} {una : UInt32} {kcp kcp' : Ikcpcb} {maxack : Option UInt32} {data : List UInt8} {size : Int}

/-- What each segment keeps, whatever its fields are, the loop keeps for any bytes. -/
theorem inputLoop_keeps {I : Ikcpcb → Prop} {fuel : Nat} {result : Int}
    (segment : ∀ kcp maxack (header : Header) data, I kcp → I (inputSegment kcp maxack (header.segment kcp.conv data)).1)
    (finish : ∀ kcp maxack, I kcp → I (finishInput una kcp maxack)) (before : I kcp)
    (ran : inputLoop overhead una fuel kcp maxack data size = .returned result kcp') : I kcp' := by
  induction fuel generalizing kcp maxack data size with
  | zero => cases ran
  | succ fuel ih =>
    rw [inputLoop] at ran
    split at ran
    · cases ran
      exact finish kcp maxack before
    · split at ran
      · cases ran
      · dsimp only at ran
        split at ran
        · cases ran
          exact before
        · split at ran
          · cases ran
            exact before
          · split at ran
            · cases ran
              exact before
            · split at ran
              · cases ran
              · exact ih (segment _ _ _ _ before) ran

theorem input_keeps {I : Ikcpcb → Prop} {result : Int}
    (segment : ∀ kcp maxack (header : Header) data, I kcp → I (inputSegment kcp maxack (header.segment kcp.conv data)).1)
    (finish : ∀ kcp maxack una, I kcp → I (finishInput una kcp maxack)) (before : I kcp)
    (ran : ikcpInput overhead kcp data size = .returned result kcp') : I kcp' := by
  unfold ikcpInput at ran
  split at ran
  · cases ran
    exact before
  · exact inputLoop_keeps segment (fun kcp maxack => finish kcp maxack _) before ran

/-! ## Datagrams that were made of segments -/

theorem length_wire (seg : Ikcpseg) : (wire seg).length = headerSize + seg.data.length := by
  rw [wire, List.length_append, length_ikcpEncodeSeg]

/-- Segments that `ikcp_input` takes one after the other. -/
def inputSegments (kcp : Ikcpcb) (maxack : Option UInt32) (segs : List Ikcpseg) : Ikcpcb × Option UInt32 :=
  segs.foldl (fun state seg => inputSegment state.1 state.2 seg) (kcp, maxack)

/-- What is well formed on the wire. -/
structure WellFormed (conv : Guid) (seg : Ikcpseg) : Prop where
  conv : seg.conv = conv
  cmd : KnownCmd seg.cmd.toUInt8.toUInt32

instance (conv : Guid) (seg : Ikcpseg) : Decidable (WellFormed conv seg) :=
  decidable_of_iff (seg.conv = conv ∧ KnownCmd seg.cmd.toUInt8.toUInt32)
    ⟨fun both => ⟨both.1, both.2⟩, fun wellFormed => ⟨wellFormed.conv, wellFormed.cmd⟩⟩

/-- A round of the loop takes a segment as it was sent. If the overhead is less than a header, more seems to be left than there
is. -/
theorem inputLoop_segment {fuel : Nat} {seg : Ikcpseg} {tail : List UInt8} {left : Nat} (less : overhead ≤ headerSize)
    (wellFormed : WellFormed kcp.conv seg) (small : seg.data.length + left + headerSize < 2 ^ 31) :
    inputLoop overhead una (fuel + 1) kcp maxack (wire seg ++ tail) (headerSize + seg.data.length + left : Nat) =
      inputLoop overhead una fuel (inputSegment kcp maxack seg.received).1 (inputSegment kcp maxack seg.received).2 tail
        (left + (headerSize - overhead) : Nat) := by
  have length : (UInt32.ofNat seg.data.length).toNat = seg.data.length := by
    rw [UInt32.toNat_ofNat']
    omega
  have bytes : wire seg ++ tail = ikcpEncodeSeg seg ++ (seg.data ++ tail) := List.append_assoc _ _ _
  have header : ikcpDecodeHeader (wire seg ++ tail) = seg.header := by rw [bytes, decodeHeader_encodeSeg]
  have rest : (wire seg ++ tail).drop headerSize = seg.data ++ tail := by
    rw [bytes]
    exact List.drop_left' (length_ikcpEncodeSeg seg)
  have enough : headerSize ≤ (wire seg ++ tail).length := by
    rw [bytes, List.length_append, length_ikcpEncodeSeg]
    exact Nat.le_add_right _ _
  have conv : seg.header.conv = kcp.conv.bytes := congrArg Guid.bytes wellFormed.conv
  have len : seg.header.len.toNat = seg.data.length := length
  have signed : toInt32 seg.header.len.toNat = seg.data.length := by
    rw [len]
    exact toInt32_of_lt (by omega) (by omega)
  have known : ¬ (seg.header.cmd.toUInt32 ≠ ikcpCmdPush ∧ seg.header.cmd.toUInt32 ≠ ikcpCmdAck ∧
      seg.header.cmd.toUInt32 ≠ ikcpCmdWask ∧ seg.header.cmd.toUInt32 ≠ ikcpCmdWins) := by
    rintro ⟨push, ack, wask, wins⟩
    rcases wellFormed.cmd with same | same | same | same
    · exact push same
    · exact ack same
    · exact wask same
    · exact wins same
  have copied : ¬ (copies kcp seg.header ∧ (2 ^ 31 ≤ seg.header.len.toNat ∨ (seg.data ++ tail).length < seg.header.len.toNat)) := by
    rintro ⟨-, big | short⟩
    · omega
    · rw [len, List.length_append] at short
      omega
  have segment : seg.header.segment kcp.conv ((seg.data ++ tail).take seg.header.len.toNat) = seg.received := by
    rw [len, List.take_left, ← wellFormed.conv, Ikcpseg.received]
  have size : toInt32 ((headerSize + seg.data.length + left : Nat) - (overhead : Int) - seg.header.len.toNat) =
      (left + (headerSize - overhead) : Nat) := by
    rw [len, toInt32_of_lt (by omega) (by omega)]
    omega
  rw [inputLoop, if_neg (by omega), if_neg (Nat.not_lt.mpr enough)]
  dsimp only
  rw [header, rest, if_neg (not_not.mpr conv), signed, if_neg (by omega), if_neg known, if_neg copied, segment, size, len,
    List.drop_left]

theorem inputLoop_wire {fuel : Nat} {segs : List Ikcpseg} {behind : List UInt8} {extra : Nat} (less : overhead ≤ headerSize)
    (wellFormed : ∀ seg ∈ segs, WellFormed kcp.conv seg)
    (small : (segs.flatMap wire).length + extra + (headerSize - overhead) * segs.length < 2 ^ 31) :
    inputLoop overhead una (fuel + segs.length) kcp maxack (segs.flatMap wire ++ behind) ((segs.flatMap wire).length + extra : Nat) =
      inputLoop overhead una fuel (inputSegments kcp maxack (segs.map Ikcpseg.received)).1
        (inputSegments kcp maxack (segs.map Ikcpseg.received)).2 behind (extra + (headerSize - overhead) * segs.length : Nat) := by
  induction segs generalizing kcp maxack extra with
  | nil =>
    rw [List.flatMap_nil, List.length_nil, List.length_nil, Nat.mul_zero, Nat.zero_add]
    rfl
  | cons seg segs ih =>
    rw [List.flatMap_cons, List.length_append, length_wire, List.length_cons, Nat.mul_succ] at small
    have first := @inputLoop_segment overhead una kcp maxack (fuel + segs.length) seg (segs.flatMap wire ++ behind)
      ((segs.flatMap wire).length + extra) less (wellFormed seg List.mem_cons_self) (by omega)
    have later : ∀ seg' ∈ segs, WellFormed (inputSegment kcp maxack seg.received).1.conv seg' := by
      intro seg' member
      rw [conv_inputSegment]
      exact wellFormed seg' (List.mem_cons_of_mem seg member)
    have sizes : ((seg :: segs).flatMap wire).length + extra =
        headerSize + seg.data.length + ((segs.flatMap wire).length + extra) := by
      rw [List.flatMap_cons, List.length_append, length_wire]
      omega
    have left : (segs.flatMap wire).length + extra + (headerSize - overhead) =
        (segs.flatMap wire).length + (extra + (headerSize - overhead)) := by omega
    have total : extra + (headerSize - overhead) + (headerSize - overhead) * segs.length =
        extra + (headerSize - overhead) * (segs.length + 1) := by
      rw [Nat.mul_succ]
      omega
    rw [sizes, List.flatMap_cons, List.append_assoc, List.length_cons, ← Nat.add_assoc, first, left,
      ih later (by omega), total]
    rfl

theorem headers_le (segs : List Ikcpseg) : headerSize * segs.length ≤ (segs.flatMap wire).length := by
  induction segs with
  | nil => exact Nat.le_refl _
  | cons seg segs ih =>
    rw [List.flatMap_cons, List.length_append, length_wire, List.length_cons, Nat.mul_succ]
    omega

/-- `ikcp_input` of `test_uv_3` takes the segments of a datagram, and succeeds. -/
theorem input_wire {segs : List Ikcpseg} (some : segs ≠ []) (wellFormed : ∀ seg ∈ segs, WellFormed kcp.conv seg)
    (small : (segs.flatMap wire).length < 2 ^ 31) :
    ikcpInput headerSize kcp (segs.flatMap wire) (segs.flatMap wire).length =
      .returned 0 (finishInput kcp.sndUna (inputSegments kcp none (segs.map Ikcpseg.received)).1
        (inputSegments kcp none (segs.map Ikcpseg.received)).2) := by
  have headers := headers_le segs
  have positive : 0 < segs.length := List.length_pos_iff.mpr some
  obtain ⟨fuel, enough⟩ : ∃ fuel, (segs.flatMap wire).length + 1 = fuel + 1 + segs.length := by
    refine ⟨(segs.flatMap wire).length - segs.length, ?_⟩
    rw [headerSize] at headers
    omega
  have ran := @inputLoop_wire headerSize kcp.sndUna kcp none (fuel + 1) segs [] 0 (Nat.le_refl _) wellFormed
    (by rwa [Nat.sub_self, Nat.zero_mul])
  simp only [List.append_nil, Nat.add_zero, Nat.sub_self, Nat.zero_mul] at ran
  rw [headerSize] at headers
  rw [ikcpInput, if_neg (by rw [headerSize]; omega), enough, ran, inputLoop, if_pos (by decide)]

end

end Xxlib.Kcp
