import Mathlib.Data.List.Perm.Subperm
import Xxlib.Kcp.Output

/-! What the functions of KCP keep whatever they are called with: the bytes that arrive may be anything.

This is for both files, so the overhead is a parameter. `window` is the largest receive window that is ever set.
-/

set_option autoImplicit false

namespace Xxlib.Kcp

/-- What has arrived is counted and in order, and there is no more of it than windows have room for. -/
structure Receives (window : Nat) (kcp : Ikcpcb) : Prop where
  receiver : ∃ taken hs, Holds (fun _ _ => True) kcp taken hs ∧ ∀ h ∈ hs, h < taken + window
  short : kcp.rcvQueue.length ≤ window
  least : ikcpWndRcv ≤ kcp.rcvWnd.toNat
  most : kcp.rcvWnd.toNat ≤ window

/-- What is sent is counted and in order, and every segment fits into a datagram. -/
structure Sends (overhead : Nat) (kcp : Ikcpcb) : Prop where
  sender : ∃ nxt ns, Unacked (fun _ seg => KnownCmd seg.cmd ∧ seg.conv = kcp.conv ∧ seg.data.length ≤ kcp.mss.toNat) kcp nxt ns
  queued : kcp.nsndQue = UInt32.ofNat kcp.sndQueue.length
  fit : ∀ seg ∈ kcp.sndQueue, seg.data.length ≤ kcp.mss.toNat
  mtu : kcp.mss.toNat + overhead = kcp.mtu.toNat
  some : 0 < kcp.mss.toNat
  rmtWnd : kcp.rmtWnd.toNat ≤ 65535

/-- The time until a segment is sent again is a minute at most. -/
structure Timed (kcp : Ikcpcb) : Prop where
  minrto : 0 < kcp.rxMinrto.toInt
  positive : 0 < kcp.rxRto.toInt
  most : kcp.rxRto.toInt ≤ 60000

/-- A control block that a caller may have. -/
structure Sound (overhead window : Nat) (kcp : Ikcpcb) : Prop where
  receives : Receives window kcp
  sends : Sends overhead kcp
  timed : Timed kcp

section
variable {overhead window : Nat} {kcp kcp' : Ikcpcb}

/-! ## Sending -/

theorem length_fragments {count : Nat} {buffer : List UInt8} : (fragments kcp count buffer).length = count := by
  induction count generalizing buffer with
  | zero => rfl
  | succ count ih => rw [fragments, List.length_cons, ih]

theorem mem_fragments {count : Nat} {buffer : List UInt8} {seg : Ikcpseg} (member : seg ∈ fragments kcp count buffer) :
    seg.data.length ≤ kcp.mss.toNat := by
  induction count generalizing buffer with
  | zero => cases member
  | succ count ih =>
    rcases List.mem_cons.mp member with rfl | later
    · exact List.length_take_le _ _
    · exact ih later

/-- The send queue is counted, and its segments are no longer than an MSS, if they were before. -/
structure Enqueued (kcp : Ikcpcb) (sndQueue : List Ikcpseg) (nsndQue : UInt32) : Prop where
  counted : kcp.nsndQue = UInt32.ofNat kcp.sndQueue.length → nsndQue = UInt32.ofNat sndQueue.length
  fit : (∀ seg ∈ kcp.sndQueue, seg.data.length ≤ kcp.mss.toNat) → ∀ seg ∈ sndQueue, seg.data.length ≤ kcp.mss.toNat

theorem enqueue_only (kcp : Ikcpcb) (buffer : List UInt8) : ∃ sndQueue nsndQue,
    (enqueue kcp buffer).2 = { kcp with sndQueue := sndQueue, nsndQue := nsndQue } ∧ Enqueued kcp sndQueue nsndQue := by
  unfold enqueue
  dsimp only
  split
  · exact ⟨kcp.sndQueue, kcp.nsndQue, rfl, id, id⟩
  · refine ⟨_, _, rfl, fun counted => ?_, fun fit seg member => ?_⟩
    · rw [List.length_append, length_fragments, UInt32.ofNat_add, counted]
    · rcases List.mem_append.mp member with old | new
      · exact fit seg old
      · exact mem_fragments new

/-- Only the last segment of the queue changes. -/
theorem appendToPrevious_only (kcp : Ikcpcb) (buffer : List UInt8) : ∃ sndQueue,
    (appendToPrevious kcp buffer).1 = { kcp with sndQueue := sndQueue } ∧ Enqueued kcp sndQueue kcp.nsndQue := by
  unfold appendToPrevious
  cases last : kcp.sndQueue.getLast? with
  | none => exact ⟨kcp.sndQueue, rfl, id, id⟩
  | some old =>
    dsimp only
    split
    · refine ⟨_, rfl, fun counted => ?_, fun fit seg member => ?_⟩
      · have positive : 0 < kcp.sndQueue.length := by
          refine List.length_pos_iff.mpr fun none => ?_
          rw [none] at last
          cases last
        rw [counted, List.length_append, List.length_dropLast, List.length_singleton, Nat.sub_add_cancel positive]
      · rcases List.mem_append.mp member with old | new
        · exact fit seg ((List.dropLast_sublist _).subset old)
        · rw [List.mem_singleton.mp new]
          change (old.data ++ _).length ≤ kcp.mss.toNat
          rw [List.length_append, List.length_take]
          omega
    · exact ⟨kcp.sndQueue, rfl, id, id⟩

theorem send_only (kcp : Ikcpcb) (buffer : List UInt8) : ∃ sndQueue nsndQue,
    (ikcpSend kcp buffer).2 = { kcp with sndQueue := sndQueue, nsndQue := nsndQue } ∧ Enqueued kcp sndQueue nsndQue := by
  unfold ikcpSend
  split
  · obtain ⟨sndQueue, result, first⟩ := appendToPrevious_only kcp buffer
    dsimp only
    split
    · exact ⟨sndQueue, kcp.nsndQue, result, first⟩
    · obtain ⟨sndQueue', nsndQue, result', second⟩ := enqueue_only (appendToPrevious kcp buffer).1 (appendToPrevious kcp buffer).2
      generalize (appendToPrevious kcp buffer).2 = rest at result'
      rw [result] at result' second ⊢
      exact ⟨sndQueue', nsndQue, result', fun counted => second.counted (first.counted counted), fun fit => second.fit (first.fit fit)⟩
  · exact enqueue_only kcp buffer

/-! ## Functions that leave a part alone -/

theorem Receives.congr (receives : Receives window kcp) (same : SameReceiver kcp kcp') (rcvWnd : kcp'.rcvWnd = kcp.rcvWnd) :
    Receives window kcp' := by
  obtain ⟨taken, hs, holds, near⟩ := receives.receiver
  refine ⟨⟨taken, hs, holds.congr same, near⟩, ?_, ?_, ?_⟩
  · rw [same.rcvQueue]
    exact receives.short
  · rw [rcvWnd]
    exact receives.least
  · rw [rcvWnd]
    exact receives.most

theorem Sends.congr (sends : Sends overhead kcp) (same : SameSender kcp kcp') (sndQueue : kcp'.sndQueue = kcp.sndQueue)
    (nsndQue : kcp'.nsndQue = kcp.nsndQue) (mtu : kcp'.mtu = kcp.mtu) (mss : kcp'.mss = kcp.mss)
    (rmtWnd : kcp'.rmtWnd.toNat ≤ 65535) : Sends overhead kcp' := by
  obtain ⟨nxt, ns, unacked⟩ := sends.sender
  refine ⟨⟨nxt, ns, ?_⟩, ?_, ?_, ?_, ?_, rmtWnd⟩
  · rw [mss, same.conv]
    exact unacked.congr same
  · rw [nsndQue, sndQueue, sends.queued]
  · rw [sndQueue, mss]
    exact sends.fit
  · rw [mss, mtu, sends.mtu]
  · rw [mss]
    exact sends.some

theorem Timed.congr (timed : Timed kcp) (minrto : kcp'.rxMinrto = kcp.rxMinrto) (rto : kcp'.rxRto = kcp.rxRto) : Timed kcp' := by
  refine ⟨?_, ?_, ?_⟩
  · rw [minrto]
    exact timed.minrto
  · rw [rto]
    exact timed.positive
  · rw [rto]
    exact timed.most

/-! ## Receiving -/

/-- What `rcv_buf` has ready goes to the queue. -/
theorem Receives.move (receives : Receives window kcp) : Receives window (moveAvailable kcp) ∧
    ∃ rcvBuf nrcvBuf rcvQueue nrcvQue rcvNxt, moveAvailable kcp = { kcp with
      rcvBuf := rcvBuf, nrcvBuf := nrcvBuf, rcvQueue := rcvQueue, nrcvQue := nrcvQue, rcvNxt := rcvNxt } := by
  obtain ⟨taken, hs, holds, near⟩ := receives.receiver
  have least := receives.least
  have most := receives.most
  have short := receives.short
  obtain ⟨moved, ms, advance, shape, -⟩ := holds.move receives.least
  have only := advance.only
  have bounded := advance.bounded
  have wnd : (moveAvailable kcp).rcvWnd = kcp.rcvWnd := by rw [only]
  refine ⟨⟨⟨_, ms, advance.holds, fun h member => ?_⟩, by omega, by rwa [wnd], by rwa [wnd]⟩, _, _, _, _, _, only⟩
  have := near h (shape ▸ List.mem_append_right _ member)
  omega

theorem Sound.recv (sound : Sound overhead window kcp) (len : Int) : Sound overhead window (ikcpRecv kcp len).2.2 := by
  rcases recv_eq kcp len with ⟨-, -, same⟩ | ⟨-, -, -, probe, result⟩
  · rw [same]
    exact sound
  · have taken : Receives window (if len < 0 then kcp else takeMessage kcp) ∧
        ∃ rcvQueue nrcvQue, (if len < 0 then kcp else takeMessage kcp) = { kcp with rcvQueue := rcvQueue, nrcvQue := nrcvQue } := by
      split
      · exact ⟨sound.receives, kcp.rcvQueue, kcp.nrcvQue, rfl⟩
      · obtain ⟨taken, hs, holds, near⟩ := sound.receives.receiver
        have split := congrArg List.length (cutMessage_append kcp.rcvQueue)
        have short := sound.receives.short
        rw [List.length_append] at split
        refine ⟨⟨⟨taken, hs, holds.dequeue, near⟩, ?_, sound.receives.least, sound.receives.most⟩, _, _, rfl⟩
        change (cutMessage kcp.rcvQueue).2.length ≤ window
        omega
    obtain ⟨receives, rcvQueue, nrcvQue, only⟩ := taken
    rw [result]
    generalize (if len < 0 then kcp else takeMessage kcp) = kcp₁ at receives only
    obtain ⟨moves, _, _, _, _, _, moved⟩ := receives.move
    refine ⟨moves.congr ⟨rfl, rfl, rfl, rfl, rfl⟩ rfl, ?_, ?_⟩
    · dsimp only
      rw [moved, only]
      exact sound.sends.congr ⟨rfl, rfl, rfl, rfl, rfl⟩ rfl rfl rfl rfl sound.sends.rmtWnd
    · dsimp only
      rw [moved, only]
      exact sound.timed.congr rfl rfl

/-! ## Segments that arrive -/

theorem toInt_toInt32_of_lt {a : UInt32} (small : a.toNat < 2 ^ 31) : a.toInt32.toInt = a.toNat := by
  have half : 2 * a.toBitVec.toNat < 2 ^ 32 := by
    rw [UInt32.toNat_toBitVec]
    omega
  exact BitVec.toInt_eq_toNat_of_lt half

/-- What `ikcp_update_ack` makes of any measurement. -/
theorem ibound_range {minrto : Int32} (positive : 0 < minrto.toInt) (middle : UInt32) :
    0 < (ibound minrto.toUInt32 middle ikcpRtoMax).toInt32.toInt ∧ (ibound minrto.toUInt32 middle ikcpRtoMax).toInt32.toInt ≤ 60000 := by
  have lower : minrto.toUInt32.toNat = minrto.toInt.toNat :=
    Int32.toNat_toUInt32_of_le (Int32.le_iff_toInt_le.mpr (Int.le_of_lt positive))
  have value : ikcpRtoMax.toNat = 60000 := rfl
  have upper := (toNat_imin_le (imax minrto.toUInt32 middle) ikcpRtoMax).2
  have larger : 0 < (imax minrto.toUInt32 middle).toNat := by
    unfold imax
    split
    · omega
    · rename_i less
      have := UInt32.lt_iff_toNat_lt.mp (UInt32.not_le.mp less)
      omega
  have low : 0 < (ibound minrto.toUInt32 middle ikcpRtoMax).toNat := by
    unfold ibound imin
    split
    · exact larger
    · rw [value]
      exact Nat.succ_pos _
  rw [value] at upper
  have small : (ibound minrto.toUInt32 middle ikcpRtoMax).toNat < 2 ^ 31 := Nat.lt_of_le_of_lt upper (by omega)
  rw [toInt_toInt32_of_lt small]
  exact ⟨Int.natCast_pos.mpr low, Int.ofNat_le.mpr upper⟩

theorem Sound.acknowledge (sound : Sound overhead window kcp) {seg : Ikcpseg} (small : seg.wnd.toNat ≤ 65535) :
    Sound overhead window (acknowledge kcp seg) := by
  obtain ⟨sndBuf, nsndBuf, srtt, rttval, rto, result, bounds, reduced⟩ := acknowledge_spec kcp seg
  obtain ⟨nxt, ns, unacked⟩ := sound.sends.sender
  obtain ⟨ms, -, left, -⟩ := unacked.reduce (Kcp.acknowledge kcp seg) reduced (by rw [result]) (by rw [result]) (by rw [result])
    (by rw [result])
  rw [result] at left ⊢
  refine ⟨sound.receives.congr ⟨rfl, rfl, rfl, rfl, rfl⟩ rfl, ⟨⟨nxt, ms, left⟩, sound.sends.queued, sound.sends.fit, sound.sends.mtu,
    sound.sends.some, small⟩, ?_⟩
  rcases bounds with rfl | ⟨middle, rfl⟩
  · exact sound.timed.congr rfl rfl
  · obtain ⟨positive, most⟩ := ibound_range sound.timed.minrto middle
    exact ⟨sound.timed.minrto, positive, most⟩

theorem Receives.parseData (receives : Receives window kcp) (small : window < 2 ^ 31) (seg : Ikcpseg) :
    Receives window (ikcpParseData kcp seg) := by
  obtain ⟨taken, hs, holds, near⟩ := receives.receiver
  have most := receives.most
  have short := receives.short
  obtain ⟨moved, hs', advance, -, origin⟩ := holds.parseData receives.least (by omega) seg fun _ _ _ _ => trivial
  have bounded := advance.bounded
  have wnd : (ikcpParseData kcp seg).rcvWnd = kcp.rcvWnd := by rw [advance.only]
  refine ⟨⟨_, hs', advance.holds, fun h member => ?_⟩, by omega, ?_, ?_⟩
  · rcases origin h (.inr member) with old | ⟨-, new⟩
    · have := near h old
      omega
    · omega
  · rw [wnd]
    exact receives.least
  · rw [wnd]
    exact most

theorem Receives.accept (receives : Receives window kcp) (small : window < 2 ^ 31) (seg : Ikcpseg) :
    Receives window (accept kcp seg) := by
  unfold Kcp.accept
  split
  · split
    · have pushed : Receives window (ikcpAckPush kcp seg.sn seg.ts) := receives.congr ⟨rfl, rfl, rfl, rfl, rfl⟩ rfl
      dsimp only
      split
      · exact pushed.parseData small seg
      · exact pushed
    · exact receives
  · split
    · exact receives.congr ⟨rfl, rfl, rfl, rfl, rfl⟩ rfl
    · exact receives

theorem Sound.segment (sound : Sound overhead window kcp) (limit : window < 2 ^ 31) (maxack : Option UInt32) {seg : Ikcpseg}
    (small : seg.wnd.toNat ≤ 65535) : Sound overhead window (inputSegment kcp maxack seg).1 := by
  have acknowledged := sound.acknowledge small
  rw [inputSegment_eq]
  refine ⟨acknowledged.receives.accept limit seg, ?_, ?_⟩
  · obtain ⟨_, _, _, _, _, _, _, only⟩ := accept_only (Kcp.acknowledge kcp seg) seg
    rw [only]
    exact acknowledged.sends.congr ⟨rfl, rfl, rfl, rfl, rfl⟩ rfl rfl rfl rfl acknowledged.sends.rmtWnd
  · obtain ⟨_, _, _, _, _, _, _, only⟩ := accept_only (Kcp.acknowledge kcp seg) seg
    rw [only]
    exact acknowledged.timed.congr rfl rfl

theorem Sound.finish (sound : Sound overhead window kcp) (una : UInt32) (maxack : Option UInt32) :
    Sound overhead window (finishInput una kcp maxack) := by
  obtain ⟨sndBuf, cwnd, incr, result, same⟩ := finishInput_eq una kcp maxack
  obtain ⟨nxt, ns, unacked⟩ := sound.sends.sender
  rw [result]
  refine ⟨sound.receives.congr ⟨rfl, rfl, rfl, rfl, rfl⟩ rfl, ⟨⟨nxt, ns, ?_⟩, sound.sends.queued, sound.sends.fit, sound.sends.mtu,
    sound.sends.some, sound.sends.rmtWnd⟩, sound.timed.congr rfl rfl⟩
  refine unacked.alike same (fun n seg seg' alike known => ⟨?_, ?_, ?_⟩) rfl rfl rfl
  · rw [alike.cmd]
    exact known.1
  · rw [alike.conv]
    exact known.2.1
  · have data : seg'.data = seg.data := congrArg Prod.snd alike.payload
    rw [data]
    exact known.2.2

/-- Whatever the bytes are. -/
theorem Sound.input (sound : Sound overhead window kcp) (limit : window < 2 ^ 31) {data : List UInt8} {size result : Int}
    (ran : ikcpInput overhead kcp data size = .returned result kcp') : Sound overhead window kcp' := by
  refine input_keeps (fun kcp maxack header data before => ?_) (fun kcp maxack una before => ?_) sound ran
  · refine before.segment limit maxack ?_
    have small := header.wnd.toNat_lt
    change header.wnd.toUInt32.toNat ≤ 65535
    rw [UInt16.toNat_toUInt32]
    omega
  · exact before.finish una maxack

/-! ## What is sent -/

theorem KnownCmd.byte {cmd : UInt32} (known : KnownCmd cmd) : cmd.toUInt8.toUInt32 = cmd := by
  rcases known with rfl | rfl | rfl | rfl <;> decide

/-- The segments of `snd_buf` behind the loop that numbers them. -/
theorem Sends.prepared (sends : Sends overhead kcp) {numbered rest : List Ikcpseg}
    (filled : Filled (windowSize kcp) kcp kcp.sndQueue numbered rest) : ∃ nxt ns,
      Unacked (fun _ seg => KnownCmd seg.cmd ∧ seg.conv = kcp.conv ∧ seg.data.length ≤ kcp.mss.toNat) (afterFill kcp numbered rest)
        nxt ns := by
  obtain ⟨nxt, ns, unacked⟩ := sends.sender
  refine ⟨_, _, unacked.fill (Nat.le_trans (windowSize_le kcp) sends.rmtWnd) filled (fun _ _ known => known) fun i inside => ?_⟩
  have member : numbered.get ⟨i, inside⟩ ∈ kcp.sndQueue := by
    rw [filled.split]
    exact List.mem_append_left _ (List.get_mem _ _)
  have short := sends.fit _ member
  exact ⟨.inl rfl, rfl, short⟩

/-- Every datagram of a flush is made of whole segments, and none is longer than the MTU and what a header takes beyond its
overhead. -/
theorem Sends.output (sends : Sends overhead kcp) (less : overhead ≤ headerSize) {bytes : List UInt8}
    (member : bytes ∈ flushOutput overhead kcp) : ∃ segs : List Ikcpseg, segs ≠ [] ∧ bytes = segs.flatMap wire ∧
      bytes.length ≤ kcp.mtu.toNat + (headerSize - overhead) ∧ ∀ seg ∈ segs, WellFormed kcp.conv seg := by
  obtain ⟨numbered, rest, _, _, prepared, filled⟩ := prepareFlush_eq kcp
  obtain ⟨nxt, ns, unacked⟩ := sends.prepared filled
  have known : ∀ seg ∈ (prepareFlush kcp).sndBuf, KnownCmd seg.cmd ∧ seg.conv = kcp.conv ∧ seg.data.length ≤ kcp.mss.toNat := by
    intro seg member
    have buffer : (prepareFlush kcp).sndBuf = (afterFill kcp numbered rest).sndBuf := by
      rw [prepared]
      rfl
    rw [buffer] at member
    obtain ⟨_, -, -, known⟩ := unacked.nums.exists_number member
    exact known
  have mtu := sends.mtu
  have fits : overhead ≤ kcp.mtu.toNat := by omega
  have allFit : ∀ seg ∈ (prepareFlush kcp).sndBuf, overhead + seg.data.length ≤ kcp.mtu.toNat := by
    intro seg there
    have := (known seg there).2.2
    omega
  obtain ⟨groups, packed, flat, nonempty, short⟩ := flushOutput_eq less fits allFit
  rw [packed] at member
  obtain ⟨segs, inside, rfl⟩ := List.mem_map.mp member
  refine ⟨segs, nonempty segs inside, rfl, short segs inside, fun seg there => ?_⟩
  have sent : seg ∈ flushSegments kcp := flat ▸ List.mem_flatten.mpr ⟨segs, inside, there⟩
  rcases List.mem_append.mp sent with control | data
  · obtain ⟨cmd, ack, rfl, which⟩ := mem_control control
    have known : KnownCmd cmd := .inr (which.imp_left And.left)
    exact ⟨rfl, known.byte.symm ▸ known⟩
  · obtain ⟨before, due, rfl⟩ := List.mem_map.mp data
    obtain ⟨known, conv, -⟩ := known before (List.mem_filter.mp due).1
    have alike := sendSegment_alike (prepareFlush kcp) before
    refine ⟨alike.conv.trans conv, ?_⟩
    rw [alike.cmd, known.byte]
    exact known

theorem Sound.flush (sound : Sound overhead window kcp) : Sound overhead window (ikcpFlush overhead kcp).1 := by
  by_cases updated : kcp.updated = true
  swap
  · have same : ikcpFlush overhead kcp = (kcp, []) := if_neg updated
    rw [same]
    exact sound
  obtain ⟨numbered, rest, tsProbe, probeWait, ssthresh, cwnd, incr, result, filled, prepared⟩ := @flush_eq overhead kcp updated
  obtain ⟨nxt, ns, unacked⟩ := sound.sends.prepared filled
  have alike := sendSegments_alike (prepareFlush kcp) (kcp.sndBuf ++ numberAll kcp kcp.sndNxt numbered)
  have queued := sound.sends.queued
  have fit := sound.sends.fit
  rw [filled.split] at queued fit
  rw [result]
  refine ⟨sound.receives.congr ⟨rfl, rfl, rfl, rfl, rfl⟩ rfl, ⟨⟨nxt, ns, ?_⟩, ?_, ?_, sound.sends.mtu, sound.sends.some,
    sound.sends.rmtWnd⟩, sound.timed.congr rfl rfl⟩
  · refine unacked.alike alike (fun n seg seg' alike known => ⟨?_, ?_, ?_⟩) rfl rfl rfl
    · rw [alike.cmd]
      exact known.1
    · rw [alike.conv]
      exact known.2.1
    · have data : seg'.data = seg.data := congrArg Prod.snd alike.payload
      rw [data]
      exact known.2.2
  · dsimp only
    rw [queued, List.length_append, UInt32.ofNat_add, UInt32.add_comm, UInt32.add_sub_cancel]
  · exact fun seg member => fit seg (List.mem_append_right _ member)

theorem Sound.config (sound : Sound overhead window kcp) (sndWnd : UInt32) {rcvWnd : UInt32} (least : ikcpWndRcv ≤ rcvWnd.toNat)
    (most : rcvWnd.toNat ≤ window) : Sound overhead window { kcp with sndWnd := sndWnd, rcvWnd := rcvWnd } := by
  obtain ⟨taken, hs, holds, near⟩ := sound.receives.receiver
  exact ⟨⟨⟨taken, hs, holds.congr ⟨rfl, rfl, rfl, rfl, rfl⟩, near⟩, sound.receives.short, least, most⟩,
    sound.sends.congr ⟨rfl, rfl, rfl, rfl, rfl⟩ rfl rfl rfl rfl sound.sends.rmtWnd, sound.timed.congr rfl rfl⟩

/-! ## Any calls -/

/-- A call of a function. `size` is what `ikcp_input` is told, `data` the memory that its pointer refers to. -/
inductive Call where
  | send (buffer : List UInt8)
  | recv (len : Int)
  | input (data : List UInt8) (size : Int)
  | update (current : UInt32)
  | flush
  | wndsize (sndwnd rcvwnd : Int32)
  | nodelay (nodelay interval resend nc : Int32)
  | minrto (rxMinrto : Int32)
  | stream (stream : Int)

/-- What a call leaves behind and outputs, if it returns. -/
def Call.apply (overhead : Nat) (kcp : Ikcpcb) : Call → Option (Ikcpcb × List (List UInt8))
  | .send buffer => some ((ikcpSend kcp buffer).2, [])
  | .recv len => some ((ikcpRecv kcp len).2.2, [])
  | .input data size =>
      match ikcpInput overhead kcp data size with
      | .returned _ kcp => some (kcp, [])
      | .fault => none
  | .update current => some (ikcpUpdate overhead kcp current)
  | .flush => some (ikcpFlush overhead kcp)
  | .wndsize sndwnd rcvwnd => some (ikcpWndsize kcp sndwnd rcvwnd, [])
  | .nodelay mode interval resend nc => some (ikcpNodelay kcp mode interval resend nc, [])
  | .minrto rxMinrto => some ({ kcp with rxMinrto := rxMinrto }, [])
  | .stream mode => some ({ kcp with stream := mode }, [])

/-- No receive window is larger than `window`, and the least timeout is positive. -/
def Call.Within (window : Nat) : Call → Prop
  | .wndsize _ rcvwnd => rcvwnd.toInt ≤ window
  | .minrto rxMinrto => 0 < rxMinrto.toInt
  | _ => True

instance (window : Nat) : (call : Call) → Decidable (call.Within window)
  | .wndsize _ rcvwnd => inferInstanceAs (Decidable (rcvwnd.toInt ≤ window))
  | .minrto rxMinrto => inferInstanceAs (Decidable (0 < rxMinrto.toInt))
  | .send _ | .recv _ | .input .. | .update _ | .flush | .nodelay .. | .stream _ => isTrue trivial

/-- The control blocks that there are. -/
inductive Called (overhead window : Nat) : Ikcpcb → Prop where
  | create (conv : Guid) (mtu : Int32) : Called overhead window (ikcpSetmtu overhead (ikcpCreate overhead conv) mtu).2
  | call {kcp kcp' : Ikcpcb} {output : List (List UInt8)} (call : Call) (before : Called overhead window kcp)
      (within : call.Within window) (ran : call.apply overhead kcp = some (kcp', output)) : Called overhead window kcp'

/-- Calls one after the other. -/
def performed (overhead : Nat) : Ikcpcb → List Call → Option Ikcpcb
  | kcp, [] => some kcp
  | kcp, call :: calls => (call.apply overhead kcp).bind fun left => performed overhead left.1 calls

theorem Called.perform {calls : List Call} (called : Called overhead window kcp) (within : ∀ call ∈ calls, call.Within window)
    (ran : performed overhead kcp calls = some kcp') : Called overhead window kcp' := by
  induction calls generalizing kcp with
  | nil =>
    cases ran
    exact called
  | cons call calls ih =>
    obtain ⟨left, first, rest⟩ := Option.bind_eq_some_iff.mp ran
    exact ih (.call call called (within call List.mem_cons_self) first) (fun call member => within call (List.mem_cons_of_mem _ member)) rest

theorem Sound.update (sound : Sound overhead window kcp) (current : UInt32) : Sound overhead window (ikcpUpdate overhead kcp current).1 := by
  obtain ⟨tsFlush, result⟩ := update_eq overhead kcp current
  have timed : Sound overhead window { kcp with current := current, updated := true, tsFlush := tsFlush } :=
    ⟨sound.receives.congr ⟨rfl, rfl, rfl, rfl, rfl⟩ rfl,
      sound.sends.congr ⟨rfl, rfl, rfl, rfl, rfl⟩ rfl rfl rfl rfl sound.sends.rmtWnd, sound.timed.congr rfl rfl⟩
  rcases result with idle | flushes
  · rw [idle]
    exact timed
  · rw [flushes]
    exact timed.flush

theorem Sound.wndsize (sound : Sound overhead window kcp) {sndwnd rcvwnd : Int32} (enough : ikcpWndRcv ≤ window)
    (small : rcvwnd.toInt ≤ window) : Sound overhead window (ikcpWndsize kcp sndwnd rcvwnd) := by
  obtain ⟨sndWnd, rcvWnd, result, which⟩ := wndsize_eq kcp sndwnd rcvwnd
  rw [result]
  rcases which with rfl | ⟨positive, rfl⟩
  · exact sound.config sndWnd sound.receives.least sound.receives.most
  · obtain ⟨least, same⟩ := toNat_imax_ge rcvwnd.toUInt32 (UInt32.ofNat ikcpWndRcv)
    refine sound.config sndWnd least ?_
    rcases same with same | same
    · rw [same, Int32.toNat_toUInt32_of_le (Int32.le_of_lt positive)]
      exact Int.toNat_le.mpr small
    · rw [same]
      exact enough

theorem Sound.nodelay (sound : Sound overhead window kcp) (nodelay interval resend nc : Int32) :
    Sound overhead window (ikcpNodelay kcp nodelay interval resend nc) := by
  obtain ⟨_, rxMinrto, _, _, _, result, which⟩ := nodelay_eq kcp nodelay interval resend nc
  rw [result]
  refine ⟨sound.receives.congr ⟨rfl, rfl, rfl, rfl, rfl⟩ rfl,
    sound.sends.congr ⟨rfl, rfl, rfl, rfl, rfl⟩ rfl rfl rfl rfl sound.sends.rmtWnd, ?_, sound.timed.positive, sound.timed.most⟩
  rcases which with rfl | rfl | rfl
  · exact sound.timed.minrto
  · exact (by decide : 0 < (30 : Int32).toInt)
  · exact (by decide : 0 < (100 : Int32).toInt)

/-- What a call that returns has left is a control block that is sound again. -/
theorem Sound.apply (sound : Sound overhead window kcp) (enough : ikcpWndRcv ≤ window) (limit : window < 2 ^ 31) {call : Call}
    {output : List (List UInt8)} (within : call.Within window) (ran : call.apply overhead kcp = some (kcp', output)) :
    Sound overhead window kcp' := by
  cases call with
  | send buffer =>
    obtain ⟨sndQueue, nsndQue, result, enqueued⟩ := send_only kcp buffer
    cases ran
    rw [result]
    obtain ⟨nxt, ns, unacked⟩ := sound.sends.sender
    exact ⟨sound.receives.congr ⟨rfl, rfl, rfl, rfl, rfl⟩ rfl,
      ⟨⟨nxt, ns, unacked.congr ⟨rfl, rfl, rfl, rfl, rfl⟩⟩, enqueued.counted sound.sends.queued, enqueued.fit sound.sends.fit,
        sound.sends.mtu, sound.sends.some, sound.sends.rmtWnd⟩, sound.timed.congr rfl rfl⟩
  | recv len =>
    cases ran
    exact sound.recv len
  | input data size =>
    dsimp only [Call.apply] at ran
    split at ran
    · rename_i returned
      cases ran
      exact sound.input limit returned
    · cases ran
  | update current =>
    have result : ikcpUpdate overhead kcp current = (kcp', output) := by
      dsimp only [Call.apply] at ran
      exact Option.some.inj ran
    have updated := sound.update current
    rw [result] at updated
    exact updated
  | flush =>
    have result : ikcpFlush overhead kcp = (kcp', output) := by
      dsimp only [Call.apply] at ran
      exact Option.some.inj ran
    have flushed := sound.flush
    rw [result] at flushed
    exact flushed
  | wndsize sndwnd rcvwnd =>
    cases ran
    exact sound.wndsize enough within
  | nodelay nodelay interval resend nc =>
    cases ran
    exact sound.nodelay nodelay interval resend nc
  | minrto rxMinrto =>
    cases ran
    exact ⟨sound.receives.congr ⟨rfl, rfl, rfl, rfl, rfl⟩ rfl,
      sound.sends.congr ⟨rfl, rfl, rfl, rfl, rfl⟩ rfl rfl rfl rfl sound.sends.rmtWnd, within, sound.timed.positive, sound.timed.most⟩
  | stream stream =>
    cases ran
    exact ⟨sound.receives.congr ⟨rfl, rfl, rfl, rfl, rfl⟩ rfl,
      sound.sends.congr ⟨rfl, rfl, rfl, rfl, rfl⟩ rfl rfl rfl rfl sound.sends.rmtWnd, sound.timed.congr rfl rfl⟩

theorem sound_create {mtu mss : UInt32} (conv : Guid) (enough : ikcpWndRcv ≤ window) (fits : mss.toNat + overhead = mtu.toNat)
    (positive : 0 < mss.toNat) : Sound overhead window { ikcpCreate overhead conv with mtu := mtu, mss := mss } where
  receives := {
    receiver := ⟨0, [], ⟨.nil, .nil, by rintro h ⟨⟩, rfl, rfl, rfl⟩, by rintro h ⟨⟩⟩
    short := Nat.zero_le _
    least := (by decide : ikcpWndRcv ≤ (128 : UInt32).toNat)
    most := enough }
  sends := {
    sender := ⟨0, [], .nil, .nil, by rintro n ⟨⟩, rfl, rfl, Nat.le_add_right 0 65535, rfl⟩
    queued := rfl
    fit := by rintro seg ⟨⟩
    mtu := fits
    some := positive
    rmtWnd := (by decide : (128 : UInt32).toNat ≤ 65535) }
  timed := ⟨(by decide : 0 < (100 : Int32).toInt), (by decide : 0 < (200 : Int32).toInt), (by decide : (200 : Int32).toInt ≤ 60000)⟩

theorem Called.sound (called : Called overhead window kcp) (less : overhead < 50) (enough : ikcpWndRcv ≤ window)
    (limit : window < 2 ^ 31) : Sound overhead window kcp := by
  induction called with
  | create conv mtu =>
    rcases setmtu_eq less (ikcpCreate overhead conv) mtu with refused | ⟨mtu', mss, result, fits, positive, -⟩
    · rw [refused]
      have mtu : (1400 : UInt32).toNat = 1400 := rfl
      have mss : (1400 - UInt32.ofNat overhead : UInt32).toNat = 1400 - overhead := by
        rw [UInt32.toNat_sub, UInt32.toNat_ofNat']
        omega
      refine @sound_create overhead window 1400 (1400 - UInt32.ofNat overhead) conv enough ?_ ?_
      · rw [mss]
        omega
      · rw [mss]
        omega
    · rw [result]
      exact sound_create conv enough fits positive
  | call call _ within ran ih => exact ih.apply enough limit within ran

/-! ## What that means -/

section
variable {P : Nat → Ikcpseg → Prop} {segs : List Ikcpseg} {ns : List Nat} {low size : Nat}

end

end

end Xxlib.Kcp