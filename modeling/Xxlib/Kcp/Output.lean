import Xxlib.Kcp.Input
import Xxlib.Kcp.Views

/-! What `ikcp_flush` sends: which segments, in which datagrams, and what it leaves behind. -/

set_option autoImplicit false

namespace Xxlib.Kcp

section
variable {overhead mtu : Nat} {kcp : Ikcpcb} {buffer : FlushBuffer} {seg : Ikcpseg} {segs queue numbered rest : List Ikcpseg}

/-! ## Packing -/

/-- The datagrams that were output and the bytes in the buffer are those segments, and none is longer than the MTU and what a header
takes beyond its overhead. -/
structure Packs (overhead mtu : Nat) (buffer : FlushBuffer) (groups : List (List Ikcpseg)) (last : List Ikcpseg) : Prop where
  output : buffer.output = groups.map fun group => group.flatMap wire
  bytes : buffer.bytes = last.flatMap wire
  nonempty : ∀ group ∈ groups, group ≠ []
  short : ∀ group ∈ groups, (group.flatMap wire).length ≤ mtu + (headerSize - overhead)
  room : (last.flatMap wire).length ≤ mtu + (headerSize - overhead)

theorem wire_ne_nil (seg : Ikcpseg) : wire seg ≠ [] := by
  intro none
  have length := length_wire seg
  rw [none, List.length_nil, headerSize] at length
  omega

theorem flatMap_wire_eq_nil : segs.flatMap wire = [] ↔ segs = [] := by
  cases segs with
  | nil => simp
  | cons seg segs => simp [wire_ne_nil]

theorem Packs.empty : Packs overhead mtu {} [] [] := by
  refine ⟨rfl, rfl, ?_, ?_, Nat.zero_le _⟩
  · rintro _ ⟨⟩
  · rintro _ ⟨⟩

theorem Packs.outputs {groups : List (List Ikcpseg)} {last : List Ikcpseg} (packs : Packs overhead mtu buffer groups last) :
    ∃ groups' : List (List Ikcpseg), ikcpOutput buffer = groups'.map (fun group => group.flatMap wire) ∧ groups'.flatten = groups.flatten ++ last ∧
      (∀ group ∈ groups', group ≠ []) ∧ ∀ group ∈ groups', (group.flatMap wire).length ≤ mtu + (headerSize - overhead) := by
  unfold ikcpOutput
  rw [packs.bytes]
  by_cases none : last = []
  · rw [if_pos (flatMap_wire_eq_nil.mpr none), none, List.append_nil]
    exact ⟨groups, packs.output, rfl, packs.nonempty, packs.short⟩
  · rw [if_neg (mt flatMap_wire_eq_nil.mp none)]
    refine ⟨groups ++ [last], ?_, ?_, ?_, ?_⟩
    · rw [packs.output, List.map_append, List.map_singleton]
    · rw [List.flatten_append, List.flatten_singleton]
    · intro group member
      rcases List.mem_append.mp member with old | new
      · exact packs.nonempty group old
      · rwa [List.mem_singleton.mp new]
    · intro group member
      rcases List.mem_append.mp member with old | new
      · exact packs.short group old
      · rw [List.mem_singleton.mp new]
        exact packs.room

theorem Packs.put {groups : List (List Ikcpseg)} {last : List Ikcpseg} (packs : Packs overhead mtu buffer groups last)
    (less : overhead ≤ headerSize) (fits : overhead + seg.data.length ≤ mtu) :
    ∃ groups' last', Packs overhead mtu (buffer.put mtu (overhead + seg.data.length) (wire seg)) groups' last' ∧
      groups'.flatten ++ last' = groups.flatten ++ last ++ [seg] := by
  have single : ([seg].flatMap wire).length = headerSize + seg.data.length := by
    rw [List.flatMap_singleton, length_wire]
  unfold FlushBuffer.put
  by_cases full : mtu < buffer.bytes.length + (overhead + seg.data.length)
  · rw [if_pos full]
    obtain ⟨groups', output, flat, nonempty, short⟩ := packs.outputs
    exact ⟨groups', [seg], ⟨output, (List.flatMap_singleton wire seg).symm, nonempty, short, by omega⟩, by rw [flat]⟩
  · rw [if_neg full]
    refine ⟨groups, last ++ [seg], ⟨packs.output, ?_, packs.nonempty, packs.short, ?_⟩, (List.append_assoc _ _ _).symm⟩
    · rw [packs.bytes, List.flatMap_append, List.flatMap_singleton]
    · rw [packs.bytes] at full
      rw [List.flatMap_append, List.length_append, single]
      omega

/-- Segments that are put into the buffer one after the other. -/
def Puts (overhead mtu : Nat) (segs : List Ikcpseg) (buffer buffer' : FlushBuffer) : Prop :=
  ∀ groups last, Packs overhead mtu buffer groups last → ∃ groups' last', Packs overhead mtu buffer' groups' last' ∧
    groups'.flatten ++ last' = groups.flatten ++ last ++ segs

theorem Puts.nil (buffer : FlushBuffer) : Puts overhead mtu [] buffer buffer := by
  intro groups last packs
  exact ⟨groups, last, packs, (List.append_nil _).symm⟩

theorem Puts.append {segs' : List Ikcpseg} {buffer' buffer'' : FlushBuffer} (first : Puts overhead mtu segs buffer buffer')
    (second : Puts overhead mtu segs' buffer' buffer'') : Puts overhead mtu (segs ++ segs') buffer buffer'' := by
  intro groups last packs
  obtain ⟨groups₁, last₁, packs₁, flat₁⟩ := first groups last packs
  obtain ⟨groups₂, last₂, packs₂, flat₂⟩ := second groups₁ last₁ packs₁
  exact ⟨groups₂, last₂, packs₂, by rw [flat₂, flat₁, List.append_assoc]⟩

theorem putControl_puts (less : overhead ≤ headerSize) (fits : overhead ≤ kcp.mtu.toNat) (cmd : UInt32) (ack : UInt32 × UInt32) :
    Puts overhead kcp.mtu.toNat [controlSegment kcp cmd ack] buffer (putControl overhead kcp cmd buffer ack) := by
  intro groups last packs
  have encoded : wire (controlSegment kcp cmd ack) = ikcpEncodeSeg (controlSegment kcp cmd ack) := List.append_nil _
  rw [putControl, ← encoded]
  exact @Packs.put overhead kcp.mtu.toNat buffer (controlSegment kcp cmd ack) groups last packs less fits

theorem flushAcks_puts (less : overhead ≤ headerSize) (fits : overhead ≤ kcp.mtu.toNat) :
    Puts overhead kcp.mtu.toNat (kcp.acklist.map (controlSegment kcp ikcpCmdAck)) {} (flushAcks overhead kcp) := by
  unfold flushAcks
  generalize ({} : FlushBuffer) = buffer
  induction kcp.acklist generalizing buffer with
  | nil => exact .nil buffer
  | cons ack acks ih => exact (putControl_puts less fits ikcpCmdAck ack).append (ih _)

/-- The probes that are sent. -/
def probeSegments (kcp : Ikcpcb) (last : UInt32 × UInt32) : List Ikcpseg :=
  (if kcp.probe &&& ikcpAskSend ≠ 0 then [controlSegment kcp ikcpCmdWask last] else []) ++
    if kcp.probe &&& ikcpAskTell ≠ 0 then [controlSegment kcp ikcpCmdWins last] else []

theorem flushProbes_puts (less : overhead ≤ headerSize) (fits : overhead ≤ kcp.mtu.toNat) (last : UInt32 × UInt32) :
    Puts overhead kcp.mtu.toNat (probeSegments kcp last) buffer (flushProbes overhead kcp last buffer) := by
  unfold probeSegments flushProbes
  refine @Puts.append overhead kcp.mtu.toNat buffer _ _
    (if kcp.probe &&& ikcpAskSend ≠ 0 then putControl overhead kcp ikcpCmdWask buffer last else buffer) _ ?_ ?_
  · split
    · exact putControl_puts less fits _ _
    · exact .nil _
  · dsimp only
    split
    · exact putControl_puts less fits _ _
    · exact .nil _

/-- The data that are sent. -/
def dueSegments (kcp : Ikcpcb) : List Ikcpseg :=
  (kcp.sndBuf.filter fun segment => (sendCause kcp segment).isSome).map (sendSegment kcp)

theorem scheduleSegment_alike (kcp : Ikcpcb) (seg : Ikcpseg) (cause : Cause) : Alike seg (scheduleSegment kcp seg cause) := by
  cases cause <;> exact ⟨rfl, rfl, rfl, rfl⟩

theorem sendSegment_alike (kcp : Ikcpcb) (seg : Ikcpseg) : Alike seg (sendSegment kcp seg) := by
  unfold sendSegment
  split
  · rename_i cause _
    have alike := scheduleSegment_alike kcp seg cause
    exact ⟨alike.sn, alike.payload, alike.conv, alike.cmd⟩
  · exact .refl seg

theorem sendSegments_alike (kcp : Ikcpcb) (segs : List Ikcpseg) : SameSegments segs (segs.map (sendSegment kcp)) :=
  List.forall₂_map_right_iff.mpr (List.forall₂_same.mpr fun seg _ => sendSegment_alike kcp seg)

theorem flushData_puts (less : overhead ≤ headerSize) (fits : ∀ seg ∈ kcp.sndBuf, overhead + seg.data.length ≤ kcp.mtu.toNat) :
    Puts overhead kcp.mtu.toNat (dueSegments kcp) buffer (flushData overhead kcp buffer) := by
  unfold dueSegments flushData
  generalize kcp.sndBuf = segs at fits
  induction segs generalizing buffer with
  | nil => exact .nil buffer
  | cons seg segs ih =>
    have rest := @ih (putData overhead kcp buffer seg) fun seg' member => fits seg' (List.mem_cons_of_mem seg member)
    by_cases due : (sendCause kcp seg).isSome = true
    · rw [List.filter_cons, if_pos due, List.map_cons]
      refine @Puts.append overhead kcp.mtu.toNat buffer [sendSegment kcp seg] _ _ _ ?_ rest
      intro groups last packs
      have data : (sendSegment kcp seg).data = seg.data := congrArg Prod.snd (sendSegment_alike kcp seg).payload
      rw [putData, if_pos due]
      exact packs.put less (by rw [data]; exact fits seg List.mem_cons_self)
    · rw [List.filter_cons, if_neg due]
      rw [putData, if_neg due] at rest
      rw [List.foldl_cons, putData, if_neg due]
      exact rest

/-! ## Numbering -/

/-- The segments that get the numbers from `sn` on. -/
def numberAll (kcp : Ikcpcb) : UInt32 → List Ikcpseg → List Ikcpseg
  | _, [] => []
  | sn, seg :: segs => numberSegment { kcp with sndNxt := sn } seg :: numberAll kcp (sn + 1) segs

/-- Numbers are given in the same way by control blocks that agree on what a segment gets besides. -/
theorem numberAll_congr {kcp' : Ikcpcb}
    (same : ∀ sn seg, numberSegment { kcp' with sndNxt := sn } seg = numberSegment { kcp with sndNxt := sn } seg) (sn : UInt32)
    (segs : List Ikcpseg) : numberAll kcp' sn segs = numberAll kcp sn segs := by
  induction segs generalizing sn with
  | nil => rfl
  | cons seg segs ih => rw [numberAll, numberAll, same, ih]

theorem length_numberAll (sn : UInt32) (segs : List Ikcpseg) : (numberAll kcp sn segs).length = segs.length := by
  induction segs generalizing sn with
  | nil => rfl
  | cons seg segs ih => rw [numberAll, List.length_cons, ih, List.length_cons]

/-- The control block behind the loop that numbers segments. -/
def afterFill (kcp : Ikcpcb) (numbered rest : List Ikcpseg) : Ikcpcb := { kcp with
  sndBuf := kcp.sndBuf ++ numberAll kcp kcp.sndNxt numbered
  nsndQue := kcp.nsndQue - UInt32.ofNat numbered.length
  nsndBuf := kcp.nsndBuf + UInt32.ofNat numbered.length
  sndNxt := kcp.sndNxt + UInt32.ofNat numbered.length
  sndQueue := rest }

/-- Which segments were numbered, and why the loop ended. -/
structure Filled (cwnd : UInt32) (kcp : Ikcpcb) (queue numbered rest : List Ikcpseg) : Prop where
  split : queue = numbered ++ rest
  inWindow : ∀ i < numbered.length, itimediff (kcp.sndNxt + UInt32.ofNat i) (kcp.sndUna + cwnd) < 0
  stop : rest ≠ [] → 0 ≤ itimediff (kcp.sndNxt + UInt32.ofNat numbered.length) (kcp.sndUna + cwnd)

theorem fillSndBuf_eq (cwnd : UInt32) (kcp : Ikcpcb) (queue : List Ikcpseg) :
    ∃ numbered rest, fillSndBuf cwnd kcp queue = afterFill kcp numbered rest ∧ Filled cwnd kcp queue numbered rest := by
  have zero (a : UInt32) : a + UInt32.ofNat ([] : List Ikcpseg).length = a := UInt32.add_zero a
  have none (a : UInt32) : a - UInt32.ofNat ([] : List Ikcpseg).length = a := UInt32.sub_zero a
  induction queue generalizing kcp with
  | nil =>
    refine ⟨[], [], ?_, rfl, fun i small => absurd small (Nat.not_lt_zero i), fun some => absurd rfl some⟩
    rw [afterFill, zero, zero, none, numberAll, List.append_nil]
    rfl
  | cons seg queue ih =>
    rw [fillSndBuf]
    split
    · rename_i inside
      obtain ⟨numbered, rest, result, filled⟩ := ih { kcp with
        sndBuf := kcp.sndBuf ++ [numberSegment kcp seg]
        nsndQue := kcp.nsndQue - 1
        nsndBuf := kcp.nsndBuf + 1
        sndNxt := kcp.sndNxt + 1 }
      have up (a : UInt32) (k : Nat) : a + 1 + UInt32.ofNat k = a + UInt32.ofNat (k + 1) := by
        rw [UInt32.ofNat_add]
        grind
      have down (a : UInt32) (k : Nat) : a - 1 - UInt32.ofNat k = a - UInt32.ofNat (k + 1) := by
        rw [UInt32.ofNat_add]
        grind
      refine ⟨seg :: numbered, rest, ?_, ?_, ?_, ?_⟩
      · have same := @numberAll_congr kcp { kcp with
          sndBuf := kcp.sndBuf ++ [numberSegment kcp seg]
          nsndQue := kcp.nsndQue - 1
          nsndBuf := kcp.nsndBuf + 1
          sndNxt := kcp.sndNxt + 1 } (fun _ _ => rfl) (kcp.sndNxt + 1) numbered
        rw [result, afterFill, afterFill, same, List.append_assoc, List.length_cons, ← up, ← up, ← down]
        rfl
      · rw [filled.split]
        rfl
      · intro i small
        cases i with
        | zero => simpa using inside
        | succ i =>
          rw [← up]
          exact filled.inWindow i (Nat.lt_of_succ_lt_succ small)
      · intro some
        rw [List.length_cons, ← up]
        exact filled.stop some
    · rename_i outside
      refine ⟨[], seg :: queue, ?_, rfl, fun i small => absurd small (Nat.not_lt_zero i), fun _ => ?_⟩
      · rw [afterFill, zero, zero, none, numberAll, List.append_nil]
      · rw [zero]
        exact Int.not_lt.mp outside

theorem toNat_imin_le (a b : UInt32) : (imin a b).toNat ≤ a.toNat ∧ (imin a b).toNat ≤ b.toNat := by
  unfold imin
  split
  · exact ⟨Nat.le_refl _, UInt32.le_iff_toNat_le.mp ‹_›⟩
  · rename_i larger
    exact ⟨Nat.le_of_lt (UInt32.lt_iff_toNat_lt.mp (UInt32.not_le.mp larger)), Nat.le_refl _⟩

theorem windowSize_le (kcp : Ikcpcb) : (windowSize kcp).toNat ≤ kcp.rmtWnd.toNat := by
  have own := (toNat_imin_le kcp.sndWnd kcp.rmtWnd).2
  unfold windowSize
  dsimp only
  split
  · exact Nat.le_trans (toNat_imin_le _ _).2 own
  · exact own

/-- The window bounds how many numbers are given. -/
theorem Filled.window {cwnd : UInt32} (filled : Filled cwnd kcp queue numbered rest) {first nxt : Nat}
    (sndNxt : kcp.sndNxt = UInt32.ofNat nxt) (sndUna : kcp.sndUna = UInt32.ofNat first) (low : first ≤ nxt)
    (high : nxt ≤ first + 65535) (small : cwnd.toNat ≤ 65535) : nxt + numbered.length ≤ first + 65535 := by
  have inside : ∀ i < numbered.length, i ≤ 65535 → nxt + i < first + cwnd.toNat := by
    intro i less few
    have behind := filled.inWindow i less
    have limit : kcp.sndUna + cwnd = UInt32.ofNat (first + cwnd.toNat) := by
      rw [UInt32.ofNat_add, sndUna, UInt32.ofNat_toNat]
    rw [limit, sndNxt, ← UInt32.ofNat_add, itimediff, Lib.serialDiff_ofNat (by omega) (by omega)] at behind
    omega
  by_contra more
  have last := inside (min (numbered.length - 1) 65535) (by omega) (Nat.min_le_right _ _)
  omega

theorem numberAll_numbered {P : Nat → Ikcpseg → Prop} (numbered : List Ikcpseg) (n : Nat)
    (each : ∀ i (inside : i < numbered.length),
      P (n + i) (numberSegment { kcp with sndNxt := UInt32.ofNat (n + i) } (numbered.get ⟨i, inside⟩))) :
    Lib.Numbered Ikcpseg.sn P (numberAll kcp (UInt32.ofNat n) numbered) (List.range' n numbered.length) := by
  induction numbered generalizing n with
  | nil => exact .nil
  | cons seg segs ih =>
    rw [numberAll, Lib.ofNat_add_one, List.length_cons, List.range'_succ]
    refine .cons ⟨rfl, each 0 (Nat.zero_lt_succ _)⟩ (ih (n + 1) fun i inside => ?_)
    have next := each (i + 1) (Nat.succ_lt_succ inside)
    rwa [← Nat.add_assoc, Nat.add_right_comm] at next

/-- The first number that has not been acknowledged stays the first. -/
theorem headD_append_range' (ns : List Nat) (nxt k : Nat) : (ns ++ List.range' nxt k).headD (nxt + k) = ns.headD nxt := by
  cases ns with
  | cons first ns => rfl
  | nil =>
    cases k with
    | zero => rfl
    | succ k => rfl

/-- `snd_buf` with the segments that got numbers. -/
theorem Unacked.fill {P Q : Nat → Ikcpseg → Prop} {nxt : Nat} {ns : List Nat} {cwnd : UInt32} (unacked : Unacked P kcp nxt ns)
    (small : cwnd.toNat ≤ 65535) (filled : Filled cwnd kcp queue numbered rest) (old : ∀ n seg, P n seg → Q n seg)
    (new : ∀ i (inside : i < numbered.length),
      Q (nxt + i) (numberSegment { kcp with sndNxt := UInt32.ofNat (nxt + i) } (numbered.get ⟨i, inside⟩))) :
    Unacked Q (afterFill kcp numbered rest) (nxt + numbered.length) (ns ++ List.range' nxt numbered.length) := by
  have below := headD_le unacked.below
  have window := filled.window unacked.nxtEq unacked.una below unacked.window small
  have first := headD_append_range' ns nxt numbered.length
  refine ⟨?_, ?_, ?_, ?_, ?_, ?_, ?_⟩
  · refine (unacked.nums.imp old).append ?_
    rw [unacked.nxtEq]
    exact numberAll_numbered numbered nxt new
  · refine List.pairwise_append.mpr ⟨unacked.sorted, List.pairwise_lt_range', fun n old m new => ?_⟩
    have := unacked.below n old
    rw [List.mem_range'_1] at new
    omega
  · intro n member
    rcases List.mem_append.mp member with old | new
    · have := unacked.below n old
      omega
    · rw [List.mem_range'_1] at new
      omega
  · rw [UInt32.ofNat_add, ← unacked.nxtEq]
    rfl
  · rw [first]
    exact unacked.una
  · rw [first]
    exact window
  · rw [afterFill, List.length_append, length_numberAll, UInt32.ofNat_add, ← unacked.buffered]

/-! ## A whole flush -/

theorem probeWindow_eq (kcp : Ikcpcb) : ∃ probe tsProbe probeWait,
    probeWindow kcp = { kcp with probe := probe, tsProbe := tsProbe, probeWait := probeWait } := by
  unfold probeWindow
  split
  · split
    · exact ⟨_, _, _, rfl⟩
    · split
      · exact ⟨_, _, _, rfl⟩
      · exact ⟨_, _, _, rfl⟩
  · exact ⟨_, _, _, rfl⟩

theorem shrinkCwnd_eq (kcp : Ikcpcb) (cwnd resent : UInt32) (change lost : Bool) : ∃ ssthresh cwnd' incr,
    shrinkCwnd kcp cwnd resent change lost = { kcp with ssthresh := ssthresh, cwnd := cwnd', incr := incr } := by
  have changed : ∃ ssthresh cwnd' incr, (if change = true then cwndChanged kcp resent else kcp) =
      { kcp with ssthresh := ssthresh, cwnd := cwnd', incr := incr } := by
    split
    · exact ⟨_, _, _, rfl⟩
    · exact ⟨_, _, _, rfl⟩
  obtain ⟨_, _, _, first⟩ := changed
  unfold shrinkCwnd
  rw [first]
  dsimp only
  split
  · split
    · exact ⟨_, _, _, rfl⟩
    · exact ⟨_, _, _, rfl⟩
  · split
    · exact ⟨_, _, _, rfl⟩
    · exact ⟨_, _, _, rfl⟩

theorem prepareFlush_eq (kcp : Ikcpcb) : ∃ numbered rest tsProbe probeWait,
    prepareFlush kcp = { kcp with
      acklist := [], probe := 0, tsProbe := tsProbe, probeWait := probeWait
      sndBuf := kcp.sndBuf ++ numberAll kcp kcp.sndNxt numbered
      nsndQue := kcp.nsndQue - UInt32.ofNat numbered.length
      nsndBuf := kcp.nsndBuf + UInt32.ofNat numbered.length
      sndNxt := kcp.sndNxt + UInt32.ofNat numbered.length
      sndQueue := rest } ∧
    Filled (windowSize kcp) kcp kcp.sndQueue numbered rest := by
  obtain ⟨probe, tsProbe, probeWait, probed⟩ := probeWindow_eq kcp
  unfold prepareFlush
  dsimp only
  rw [probed]
  obtain ⟨numbered, rest, result, filled⟩ := fillSndBuf_eq (windowSize kcp)
    { kcp with acklist := [], probe := 0, tsProbe := tsProbe, probeWait := probeWait } kcp.sndQueue
  refine ⟨numbered, rest, tsProbe, probeWait, ?_, filled.split, filled.inWindow, filled.stop⟩
  have same := @numberAll_congr kcp { kcp with acklist := [], probe := 0, tsProbe := tsProbe, probeWait := probeWait }
    (fun _ _ => rfl) kcp.sndNxt numbered
  rw [afterFill, same] at result
  exact result

/-- `ikcp_flush` numbers what the window has room for, and sends what is due. -/
theorem flush_eq (updated : kcp.updated = true) : ∃ numbered rest tsProbe probeWait ssthresh cwnd incr,
    (ikcpFlush overhead kcp).1 = { kcp with
      acklist := [], probe := 0, tsProbe := tsProbe, probeWait := probeWait
      sndBuf := (kcp.sndBuf ++ numberAll kcp kcp.sndNxt numbered).map (sendSegment (prepareFlush kcp))
      nsndQue := kcp.nsndQue - UInt32.ofNat numbered.length
      nsndBuf := kcp.nsndBuf + UInt32.ofNat numbered.length
      sndNxt := kcp.sndNxt + UInt32.ofNat numbered.length
      sndQueue := rest, ssthresh := ssthresh, cwnd := cwnd, incr := incr } ∧
    Filled (windowSize kcp) kcp kcp.sndQueue numbered rest ∧
    (prepareFlush kcp).sndBuf = kcp.sndBuf ++ numberAll kcp kcp.sndNxt numbered := by
  obtain ⟨numbered, rest, tsProbe, probeWait, prepared, filled⟩ := prepareFlush_eq kcp
  unfold ikcpFlush
  rw [if_pos updated]
  dsimp only
  obtain ⟨ssthresh, cwnd, incr, shrunk⟩ := shrinkCwnd_eq
    { prepareFlush kcp with sndBuf := (prepareFlush kcp).sndBuf.map (sendSegment (prepareFlush kcp)) } (windowSize kcp)
    (resentLimit kcp) (decide (some Cause.skipped ∈ (prepareFlush kcp).sndBuf.map (sendCause (prepareFlush kcp))))
    (decide (some Cause.lost ∈ (prepareFlush kcp).sndBuf.map (sendCause (prepareFlush kcp))))
  have buffer : (prepareFlush kcp).sndBuf = kcp.sndBuf ++ numberAll kcp kcp.sndNxt numbered := by rw [prepared]
  refine ⟨numbered, rest, tsProbe, probeWait, ssthresh, cwnd, incr, ?_, filled, buffer⟩
  rw [shrunk]
  generalize sendSegment (prepareFlush kcp) = send
  rw [buffer, prepared]

/-- The segments that a flush sends, in this order. -/
def flushSegments (kcp : Ikcpcb) : List Ikcpseg :=
  kcp.acklist.map (controlSegment kcp ikcpCmdAck) ++ probeSegments (probeWindow kcp) (kcp.acklist.getLastD (0, 0)) ++
    dueSegments (prepareFlush kcp)

/-- Every datagram is made of whole segments, and together they are all that the flush sends. -/
theorem flushOutput_eq (less : overhead ≤ headerSize) (fits : overhead ≤ kcp.mtu.toNat)
    (allFit : ∀ seg ∈ (prepareFlush kcp).sndBuf, overhead + seg.data.length ≤ kcp.mtu.toNat) :
    ∃ groups : List (List Ikcpseg), flushOutput overhead kcp = groups.map (fun group => group.flatMap wire) ∧
      groups.flatten = flushSegments kcp ∧ (∀ group ∈ groups, group ≠ []) ∧
      ∀ group ∈ groups, (group.flatMap wire).length ≤ kcp.mtu.toNat + (headerSize - overhead) := by
  obtain ⟨_, _, _, probed⟩ := probeWindow_eq kcp
  obtain ⟨_, _, _, _, prepared, -⟩ := prepareFlush_eq kcp
  have mtu₁ : (probeWindow kcp).mtu = kcp.mtu := by rw [probed]
  have mtu₂ : (prepareFlush kcp).mtu = kcp.mtu := by rw [prepared]
  have acks := flushAcks_puts less fits
  have probes := @flushProbes_puts overhead (probeWindow kcp) (flushAcks overhead kcp) less (by rwa [mtu₁])
    (kcp.acklist.getLastD (0, 0))
  have data := @flushData_puts overhead (prepareFlush kcp)
    (flushProbes overhead (probeWindow kcp) (kcp.acklist.getLastD (0, 0)) (flushAcks overhead kcp)) less (by rwa [mtu₂])
  rw [mtu₁] at probes
  rw [mtu₂] at data
  obtain ⟨groups, last, packs, flat⟩ := (acks.append probes).append data [] [] .empty
  obtain ⟨groups', output, flat', nonempty, short⟩ := packs.outputs
  exact ⟨groups', output, by rw [flat', flat]; rfl, nonempty, short⟩

/-- What is sent besides data. -/
theorem mem_control {seg : Ikcpseg}
    (member : seg ∈ kcp.acklist.map (controlSegment kcp ikcpCmdAck) ++ probeSegments (probeWindow kcp) (kcp.acklist.getLastD (0, 0))) :
    ∃ cmd ack, seg = controlSegment kcp cmd ack ∧ (cmd = ikcpCmdAck ∧ ack ∈ kcp.acklist ∨ cmd = ikcpCmdWask ∨ cmd = ikcpCmdWins) := by
  obtain ⟨_, _, _, probed⟩ := probeWindow_eq kcp
  have same (cmd : UInt32) (ack : UInt32 × UInt32) : controlSegment (probeWindow kcp) cmd ack = controlSegment kcp cmd ack := by
    rw [probed]
    rfl
  rcases List.mem_append.mp member with ack | probe
  · obtain ⟨_, there, rfl⟩ := List.mem_map.mp ack
    exact ⟨_, _, rfl, .inl ⟨rfl, there⟩⟩
  · rcases List.mem_append.mp probe with ask | tell
    · rw [List.mem_ite_nil_right, List.mem_singleton] at ask
      exact ⟨_, _, ask.2.trans (same _ _), .inr (.inl rfl)⟩
    · rw [List.mem_ite_nil_right, List.mem_singleton] at tell
      exact ⟨_, _, tell.2.trans (same _ _), .inr (.inr rfl)⟩

/-! ## The clock -/

/-- `ikcp_update` sets the clock, and flushes when it is time. -/
theorem update_eq (overhead : Nat) (kcp : Ikcpcb) (current : UInt32) : ∃ tsFlush,
    ikcpUpdate overhead kcp current = ({ kcp with current := current, updated := true, tsFlush := tsFlush }, []) ∨
      ikcpUpdate overhead kcp current = ikcpFlush overhead { kcp with current := current, updated := true, tsFlush := tsFlush } := by
  have first : ∃ tsFlush, (if kcp.updated = true then { kcp with current := current } else
      { kcp with current := current, updated := true, tsFlush := current }) =
      { kcp with current := current, updated := true, tsFlush := tsFlush } := by
    by_cases before : kcp.updated = true
    · refine ⟨kcp.tsFlush, ?_⟩
      rw [if_pos before, ← before]
    · exact ⟨current, if_neg before⟩
  obtain ⟨tsFlush, started⟩ := first
  unfold ikcpUpdate
  dsimp only
  rw [started]
  dsimp only
  by_cases reset : 10000 ≤ itimediff current tsFlush ∨ itimediff current tsFlush < -10000
  · rw [if_pos reset, if_pos reset, if_pos (Int.le_refl 0)]
    exact ⟨_, .inr rfl⟩
  · rw [if_neg reset, if_neg reset]
    split
    · exact ⟨_, .inr rfl⟩
    · exact ⟨_, .inl rfl⟩

end

end Xxlib.Kcp
