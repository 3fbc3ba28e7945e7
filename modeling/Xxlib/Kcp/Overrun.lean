import Xxlib.Kcp.Input

/-! When `ikcp_input` leaves the memory that it was given (`test_uv_3/ikcp.h`, `test_uv_4/ikcp.cpp`).

A length of 2^31 or more is compared as a negative number. In `test_uv_4` the overhead of a segment is 24, although its header takes
36 bytes: for each segment, the loop believes that 12 bytes more are left.
-/

set_option autoImplicit false

namespace Xxlib.Kcp

open Lib (toInt32 toInt32_of_lt)

section
variable {una : UInt32} {kcp : Ikcpcb} {maxack : Option UInt32} {data : List UInt8} {size : Int}

/-! ## Lengths that are negative -/

/-- A header of the conversation with such a length, from `back` on. -/
structure Oversized (conv : Guid) (back : List UInt8) : Prop where
  whole : headerSize ≤ back.length
  conv : (ikcpDecodeHeader back).conv = conv.bytes
  huge : 2 ^ 31 ≤ (ikcpDecodeHeader back).len.toNat

theorem input_oversized {overhead : Nat} (less : overhead ≤ headerSize) (oversized : Oversized kcp.conv data)
    (push : (ikcpDecodeHeader data).cmd.toUInt32 = ikcpCmdPush)
    (ahead : 0 ≤ itimediff (ikcpDecodeHeader data).sn kcp.rcvNxt)
    (inside : itimediff (ikcpDecodeHeader data).sn (kcp.rcvNxt + kcp.rcvWnd) < 0) :
    ikcpInput overhead kcp data data.length = .fault := by
  have whole := oversized.whole
  have huge := oversized.huge
  have most := (ikcpDecodeHeader data).len.toNat_lt
  have negative : toInt32 (ikcpDecodeHeader data).len.toNat < 0 := by
    unfold toInt32
    rw [Int.bmod_def]
    split <;> omega
  have known : ¬ ((ikcpDecodeHeader data).cmd.toUInt32 ≠ ikcpCmdPush ∧ (ikcpDecodeHeader data).cmd.toUInt32 ≠ ikcpCmdAck ∧
      (ikcpDecodeHeader data).cmd.toUInt32 ≠ ikcpCmdWask ∧ (ikcpDecodeHeader data).cmd.toUInt32 ≠ ikcpCmdWins) :=
    fun unknown => unknown.1 push
  have copied : copies kcp (ikcpDecodeHeader data) = true := decide_eq_true ⟨push, inside, ahead⟩
  rw [ikcpInput, if_neg (by omega), inputLoop, if_neg (by omega), if_neg (by omega)]
  dsimp only
  rw [if_neg (not_not.mpr oversized.conv), if_neg (by omega), if_neg known, if_pos ⟨copied, .inl huge⟩]

/-- Whoever knows the conversation can make either `ikcp_input` fail with a header alone. -/
theorem exists_fault {overhead : Nat} (less : overhead ≤ headerSize) (room : 0 < kcp.rcvWnd) (small : kcp.rcvWnd.toNat < 2 ^ 31) :
    ∃ data : List UInt8, data.length = headerSize ∧ ikcpInput overhead kcp data data.length = .fault := by
  let seg : Ikcpseg := ⟨kcp.conv, ikcpCmdPush, 0, 0, 0, kcp.rcvNxt, 0, 0, 0, 0, 0, List.replicate (2 ^ 31) 0⟩
  have header : ikcpDecodeHeader (ikcpEncodeSeg seg) = seg.header := by
    rw [← List.append_nil (ikcpEncodeSeg seg), decodeHeader_encodeSeg]
  have len : (ikcpDecodeHeader (ikcpEncodeSeg seg)).len.toNat = 2 ^ 31 := by
    rw [header]
    change (UInt32.ofNat (List.replicate (2 ^ 31) (0 : UInt8)).length).toNat = 2 ^ 31
    rw [List.length_replicate]
    rfl
  have number : kcp.rcvNxt = UInt32.ofNat kcp.rcvNxt.toNat := UInt32.ofNat_toNat.symm
  have window : kcp.rcvNxt + kcp.rcvWnd = UInt32.ofNat (kcp.rcvNxt.toNat + kcp.rcvWnd.toNat) := by
    rw [UInt32.ofNat_add, UInt32.ofNat_toNat, UInt32.ofNat_toNat]
  have first : itimediff kcp.rcvNxt kcp.rcvNxt = 0 := by
    rw [itimediff, number, Lib.serialDiff_ofNat (by omega) (by omega), Int.sub_self]
  have last : itimediff kcp.rcvNxt (kcp.rcvNxt + kcp.rcvWnd) = -(kcp.rcvWnd.toNat : Int) := by
    rw [itimediff, window]
    nth_rewrite 1 [number]
    rw [Lib.serialDiff_ofNat (by omega) (by omega)]
    omega
  have some := UInt32.lt_iff_toNat_lt.mp room
  rw [UInt32.toNat_zero] at some
  refine ⟨ikcpEncodeSeg seg, length_ikcpEncodeSeg seg, input_oversized less ⟨?_, ?_, ?_⟩ ?_ ?_ ?_⟩
  · rw [length_ikcpEncodeSeg]
  · rw [header]
    rfl
  · rw [len]
  · rw [header]
    change ikcpCmdPush.toUInt8.toUInt32 = ikcpCmdPush
    decide
  · rw [header]
    exact Int.le_of_eq first.symm
  · rw [header]
    change itimediff kcp.rcvNxt (kcp.rcvNxt + kcp.rcvWnd) < 0
    rw [last]
    omega

theorem exists_fault_created : ∃ data : List UInt8, data.length = headerSize ∧
    ikcpInput headerSize (ikcpCreate headerSize .zero) data data.length = .fault :=
  exists_fault (by decide) (by decide) (by decide)

/-! ## The overhead of `test_uv_4` -/

end

end Xxlib.Kcp
