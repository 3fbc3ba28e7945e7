import Xxlib.Kcp.Steps

/-! Messages and their fragments: what `ikcp_send` cuts, `ikcp_recv` puts together again. -/

set_option autoImplicit false

namespace Xxlib.Kcp

section
variable {kcp : Ikcpcb} {mss : Nat} {buffer : List UInt8} {count : Nat}

/-! ## Cutting -/

/-- The fragments of a message: each carries how many follow it. -/
def payloads (mss : Nat) : Nat → List UInt8 → List Payload
  | 0, _ => []
  | rest + 1, buffer => (UInt32.ofNat rest, buffer.take mss) :: payloads mss rest (buffer.drop mss)

def messagePayloads (mss : Nat) (message : List UInt8) : List Payload := payloads mss (fragmentCount mss message.length) message

theorem length_payloads : (payloads mss count buffer).length = count := by
  induction count generalizing buffer with
  | zero => rfl
  | succ count ih => rw [payloads, List.length_cons, ih]

theorem map_fragments (mode : kcp.stream = 0) :
    (fragments kcp count buffer).map Ikcpseg.payload = payloads kcp.mss.toNat count buffer := by
  induction count generalizing buffer with
  | zero => rfl
  | succ count ih =>
    rw [fragments, List.map_cons, ih, if_pos mode]
    rfl

/-- The fragments are enough for the message. -/
theorem length_le_count_mul (positive : 0 < mss) (len : Nat) : len ≤ fragmentCount mss len * mss := by
  unfold fragmentCount
  split
  · omega
  · have rounded := Nat.div_add_mod (len + mss - 1) mss
    have small := Nat.mod_lt (len + mss - 1) positive
    rw [Nat.mul_comm] at rounded
    omega

theorem fragmentCount_pos (positive : 0 < mss) (len : Nat) : 0 < fragmentCount mss len := by
  unfold fragmentCount
  split
  · exact Nat.one_pos
  · exact Nat.div_pos (by omega) positive

theorem flatMap_payloads (enough : buffer.length ≤ count * mss) : (payloads mss count buffer).flatMap Prod.snd = buffer := by
  induction count generalizing buffer with
  | zero =>
    rw [Nat.zero_mul] at enough
    exact (List.length_eq_zero_iff.mp (Nat.le_zero.mp enough)).symm
  | succ count ih =>
    rw [Nat.succ_mul] at enough
    rw [payloads, List.flatMap_cons, ih (by rw [List.length_drop]; omega), List.take_append_drop]

theorem flatMap_messagePayloads (positive : 0 < mss) (message : List UInt8) :
    (messagePayloads mss message).flatMap Prod.snd = message := flatMap_payloads (length_le_count_mul positive message.length)

theorem mem_payloads {p : Payload} (member : p ∈ payloads mss count buffer) : p.2.length ≤ mss ∧ ∃ rest < count, p.1 = UInt32.ofNat rest := by
  induction count generalizing buffer with
  | zero => cases member
  | succ count ih =>
    rcases List.mem_cons.mp member with rfl | later
    · exact ⟨List.length_take_le _ _, count, Nat.lt_succ_self count, rfl⟩
    · obtain ⟨size, rest, less, same⟩ := ih later
      exact ⟨size, rest, Nat.lt_succ_of_lt less, same⟩

/-- What `ikcp_send` does with a message. -/
theorem send_eq (mode : kcp.stream = 0) (buffer : List UInt8) (positive : 0 < kcp.mss.toNat) :
    (ikcpWndRcv ≤ fragmentCount kcp.mss.toNat buffer.length ∧ ikcpSend kcp buffer = (-2, kcp)) ∨
      (fragmentCount kcp.mss.toNat buffer.length < ikcpWndRcv ∧ ∃ segs : List Ikcpseg,
        segs.map Ikcpseg.payload = messagePayloads kcp.mss.toNat buffer ∧
        ikcpSend kcp buffer = (0, { kcp with
          sndQueue := kcp.sndQueue ++ segs, nsndQue := kcp.nsndQue + UInt32.ofNat segs.length })) := by
  have some := fragmentCount_pos positive buffer.length
  unfold ikcpSend
  rw [if_neg (not_not.mpr mode), enqueue]
  by_cases many : ikcpWndRcv ≤ fragmentCount kcp.mss.toNat buffer.length
  · rw [if_pos many]
    exact .inl ⟨many, rfl⟩
  · rw [if_neg many, if_neg (by omega)]
    refine .inr ⟨Nat.not_le.mp many, fragments kcp (fragmentCount kcp.mss.toNat buffer.length) buffer, map_fragments mode, ?_⟩
    have length : (fragments kcp (fragmentCount kcp.mss.toNat buffer.length) buffer).length =
        fragmentCount kcp.mss.toNat buffer.length := by
      rw [← List.length_map (f := Ikcpseg.payload), map_fragments mode, length_payloads]
    rw [length]

/-! ## Putting together -/

theorem cutMessage_append (segs : List Ikcpseg) : (cutMessage segs).1 ++ (cutMessage segs).2 = segs := by
  induction segs with
  | nil => rfl
  | cons seg segs ih =>
    rw [cutMessage]
    split
    · rfl
    · rw [List.cons_append, ih]

/-- A message is cut off where it ends. -/
theorem cutMessage_payloads {segs rest : List Ikcpseg} (small : count < 2 ^ 32)
    (shape : segs.map Ikcpseg.payload = payloads mss (count + 1) buffer) : cutMessage (segs ++ rest) = (segs, rest) := by
  induction count generalizing segs buffer with
  | zero =>
    obtain ⟨seg, tail, rfl, first, none⟩ := List.map_eq_cons_iff.mp shape
    rw [List.map_eq_nil_iff.mp none]
    have last : seg.frg = 0 := congrArg Prod.fst first
    rw [List.singleton_append, cutMessage, if_pos last]
  | succ count ih =>
    obtain ⟨seg, tail, rfl, first, later⟩ := List.map_eq_cons_iff.mp shape
    have more : seg.frg ≠ 0 := by
      intro zero
      have frg : seg.frg = UInt32.ofNat (count + 1) := congrArg Prod.fst first
      rw [frg] at zero
      have value := congrArg UInt32.toNat zero
      rw [UInt32.toNat_ofNat', UInt32.toNat_zero] at value
      omega
    rw [List.cons_append, cutMessage, if_neg more, ih (Nat.lt_of_succ_lt small) later]

theorem messageLength_eq (segs : List Ikcpseg) : messageLength segs = ((cutMessage segs).1.flatMap Ikcpseg.data).length := by
  induction segs with
  | nil => rfl
  | cons seg segs ih =>
    rw [messageLength, cutMessage]
    split
    · rw [List.flatMap_singleton]
    · rw [List.flatMap_cons, List.length_append, ih]

/-- The size that `ikcp_recv` asserts. -/
theorem peeksize_eq (some : 0 ≤ ikcpPeeksize kcp) : ikcpPeeksize kcp = ((cutMessage kcp.rcvQueue).1.flatMap Ikcpseg.data).length := by
  unfold ikcpPeeksize at some ⊢
  rw [← messageLength_eq]
  cases shape : kcp.rcvQueue with
  | nil =>
    rw [shape] at some
    dsimp only at some
    omega
  | cons seg rest =>
    rw [shape] at some
    dsimp only at some ⊢
    by_cases last : seg.frg = 0
    · rw [if_pos last, messageLength, if_pos last]
    · rw [if_neg last] at some ⊢
      by_cases few : kcp.nrcvQue < seg.frg + 1
      · rw [if_pos few] at some
        exact absurd some (by decide)
      · rw [if_neg few]

theorem fastRecover_eq (recover : Bool) (kcp : Ikcpcb) : ∃ probe, fastRecover recover kcp = { kcp with probe := probe } := by
  unfold fastRecover
  split
  · exact ⟨_, rfl⟩
  · exact ⟨_, rfl⟩

/-- `ikcp_recv` fails and changes nothing, or it copies the first message, which it takes unless `len` is negative. -/
theorem recv_eq (kcp : Ikcpcb) (len : Int) :
    (kcp.rcvQueue = [] ∨ ikcpPeeksize kcp < 0 ∨ len.natAbs < ikcpPeeksize kcp) ∧ (ikcpRecv kcp len).1 < 0 ∧
        (ikcpRecv kcp len).2.2 = kcp ∨
      kcp.rcvQueue ≠ [] ∧ 0 ≤ ikcpPeeksize kcp ∧ ikcpPeeksize kcp ≤ len.natAbs ∧ ∃ probe, ikcpRecv kcp len =
        ((((cutMessage kcp.rcvQueue).1.flatMap Ikcpseg.data).length : Int), (cutMessage kcp.rcvQueue).1.flatMap Ikcpseg.data,
          { moveAvailable (if len < 0 then kcp else takeMessage kcp) with probe := probe }) := by
  unfold ikcpRecv
  by_cases empty : kcp.rcvQueue = []
  · rw [if_pos empty]
    exact .inl ⟨.inl empty, Int.negSucc_lt_zero _, rfl⟩
  · rw [if_neg empty]
    by_cases partly : ikcpPeeksize kcp < 0
    · rw [if_pos partly]
      exact .inl ⟨.inr (.inl partly), Int.negSucc_lt_zero _, rfl⟩
    · rw [if_neg partly]
      by_cases long : (len.natAbs : Int) < ikcpPeeksize kcp
      · rw [if_pos long]
        exact .inl ⟨.inr (.inr long), Int.negSucc_lt_zero _, rfl⟩
      · rw [if_neg long]
        refine .inr ⟨empty, Int.not_lt.mp partly, Int.not_lt.mp long, ?_⟩
        obtain ⟨probe, recovered⟩ := fastRecover_eq (decide (kcp.rcvWnd ≤ kcp.nrcvQue))
          (moveAvailable (if len < 0 then kcp else takeMessage kcp))
        exact ⟨probe, by rw [← recovered]⟩

/-- `ikcp_recv` changes nothing but the fields of the receiver. -/
theorem recv_only (kcp : Ikcpcb) (len : Int) : ∃ rcvBuf nrcvBuf rcvQueue nrcvQue rcvNxt probe, (ikcpRecv kcp len).2.2 = { kcp with
    rcvBuf := rcvBuf, nrcvBuf := nrcvBuf, rcvQueue := rcvQueue, nrcvQue := nrcvQue, rcvNxt := rcvNxt, probe := probe } := by
  rcases recv_eq kcp len with ⟨-, -, same⟩ | ⟨-, -, -, probe, result⟩
  · rw [same]
    exact ⟨_, _, _, _, _, _, rfl⟩
  · obtain ⟨_, _, moved, -⟩ := moveLoop_eq (if len < 0 then kcp else takeMessage kcp) (if len < 0 then kcp else takeMessage kcp).rcvBuf
    rw [result, moveAvailable, moved]
    split
    · exact ⟨_, _, _, _, _, _, rfl⟩
    · exact ⟨_, _, _, _, _, _, rfl⟩

end

end Xxlib.Kcp
