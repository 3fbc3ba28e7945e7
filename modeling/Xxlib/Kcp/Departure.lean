import Xxlib.Kcp.Transfer

/-! Datagrams leave one end of a session: which numbers `ikcp_flush` gives, and that what it sends is genuine. -/

set_option autoImplicit false

namespace Xxlib.Kcp

open Session (windowLimit lifetime)

section
variable {x y x' : Endpoint} {nsx nsy hsx hsy hs hs' : List Nat} {d : Datagram} {kcp : Ikcpcb} {queue numbered rest : List Ikcpseg}

/-- What has a number keeps it. -/
theorem getElem?_of_prefix {log log' : List Payload} {n : Nat} {p : Payload} (part : log <+: log') (found : log[n]? = some p) :
    log'[n]? = some p := by
  obtain ⟨inside, rfl⟩ := List.getElem?_eq_some_iff.mp found
  exact List.prefix_iff_getElem?.mp part n inside

/-- What was sent stays genuine. -/
theorem Carried.mono (carried : Carried x hs d) (conv : x'.kcp.conv = x.kcp.conv) (log : x.log <+: x'.log) (told : x.told ≤ x'.told)
    (received : ∀ n, Received x hs n → Received x' hs' n) : Carried x' hs' d := by
  obtain ⟨segs, carries⟩ := carried
  refine ⟨segs, Nat.le_trans carries.numbered log.length_le, Nat.le_trans carries.taken told, carries.some, carries.bytes,
    carries.small, ?_⟩
  intro seg member
  obtain ⟨wellFormed, genuine⟩ := carries.each seg member
  refine ⟨conv ▸ wellFormed, genuine.una, fun push => ?_, fun ack => ?_, genuine.wnd⟩
  · obtain ⟨n, number, before, after, logged⟩ := genuine.push push
    exact ⟨n, number, before, after, getElem?_of_prefix log logged⟩
  · obtain ⟨n, number, held, early, late⟩ := genuine.ack ack
    exact ⟨n, number, received n held, early, late⟩

/-! ## New numbers -/

/-- The numbers that are on their way then. -/
def given (x : Endpoint) (ns : List Nat) (numbered : List Ikcpseg) : List Nat := ns ++ List.range' x.log.length numbered.length

def logged (x : Endpoint) (numbered : List Ikcpseg) : List Payload := x.log ++ numbered.map Ikcpseg.payload

theorem length_logged (x : Endpoint) (numbered : List Ikcpseg) : (logged x numbered).length = x.log.length + numbered.length := by
  rw [logged, List.length_append, List.length_map]

theorem unacked_logged (unacked : Unacked (Sent x.kcp.conv x.log) x.kcp x.log.length nsx) {cwnd : UInt32} (small : cwnd.toNat ≤ 65535)
    (filled : Filled cwnd x.kcp queue numbered rest) : Unacked (Sent x.kcp.conv (logged x numbered))
      (afterFill x.kcp numbered rest) (logged x numbered).length (given x nsx numbered) := by
  rw [length_logged]
  refine unacked.fill small filled (fun n seg sent => ⟨sent.1, sent.2.1, ?_⟩) fun i inside => ⟨rfl, rfl, ?_⟩
  · exact getElem?_of_prefix (List.prefix_append x.log _) sent.2.2
  · rw [logged, List.getElem?_append_right (Nat.le_add_right _ _), Nat.add_sub_cancel_left, List.getElem?_map,
      List.getElem?_eq_getElem inside]
    rfl

/-- The sender has given more numbers. -/
theorem Link.number (link : Link x y nsx hsy) {ns' : List Nat}
    (unacked : Unacked (Sent x'.kcp.conv x'.log) x'.kcp x'.log.length ns') (log : x.log <+: x'.log) (old : ∀ n ∈ nsx, n ∈ ns')
    (new : ∀ n, x.log.length ≤ n → n < x'.log.length → n ∈ ns') : Link x' y ns' hsy := by
  have length := log.length_le
  refine ⟨unacked, ⟨link.receiver.nums.imp fun n seg => getElem?_of_prefix log, link.receiver.sorted, link.receiver.range,
    link.receiver.nxt, link.receiver.queued, link.receiver.buffered⟩, link.idle,
    fun h member => Nat.lt_of_lt_of_le (link.below h member) length, Nat.le_trans link.takenLe length, ?_, link.told, ?_, link.acks⟩
  · intro n known
    by_cases before : n < x.log.length
    · exact (link.kept n before).imp_left (old n)
    · exact .inl (new n (Nat.not_lt.mp before) known)
  · intro n known
    by_cases before : n < x.log.length
    · exact (link.lag n before).imp_left (old n)
    · exact .inl (new n (Nat.not_lt.mp before) known)

/-- The receiver has told what it has taken, and has nothing more to acknowledge. -/
theorem Link.tell (link : Link y x nsy hsx) (receiver : SameReceiver x.kcp x'.kcp) (acklist : x'.kcp.acklist = [])
    (taken : x'.taken = x.taken) (more : x.told ≤ x'.told) (most : x'.told ≤ x.taken) : Link y x' nsy hsx := by
  have same : Received x' hsx = Received x hsx := by
    unfold Received
    rw [taken]
  refine ⟨link.sender, ?_, ?_, link.below, ?_, ?_, ?_, fun n known => ?_, ?_⟩
  · rw [taken]
    exact link.receiver.congr receiver
  · rw [taken]
    exact link.idle.congr receiver
  · rw [taken]
    exact link.takenLe
  · rw [same]
    exact link.kept
  · rw [taken]
    exact most
  · exact (link.lag n known).imp_right fun near => by omega
  · rw [acklist]
    rintro ack ⟨⟩

/-! ## What is sent -/

theorem prepareFlush_same (kcp : Ikcpcb) : (prepareFlush kcp).conv = kcp.conv ∧ (prepareFlush kcp).rcvNxt = kcp.rcvNxt := by
  obtain ⟨_, _, _, _, prepared, -⟩ := prepareFlush_eq kcp
  rw [prepared]
  exact ⟨rfl, rfl⟩

theorem una_sendSegment {seg : Ikcpseg} (due : (sendCause kcp seg).isSome = true) : (sendSegment kcp seg).una = kcp.rcvNxt := by
  obtain ⟨cause, same⟩ := Option.isSome_iff_exists.mp due
  rw [sendSegment, same]

/-- A command of one byte is not changed on the wire. -/
theorem control_received (kcp : Ikcpcb) {cmd : UInt32} (ack : UInt32 × UInt32) (byte : cmd.toUInt8.toUInt32 = cmd) :
    (controlSegment kcp cmd ack).received.cmd = cmd := byte

theorem wnd_received_le (seg : Ikcpseg) : seg.received.wnd.toNat ≤ 65535 := by
  have small := seg.wnd.toUInt16.toNat_lt
  change seg.wnd.toUInt16.toUInt32.toNat ≤ 65535
  rw [UInt16.toNat_toUInt32]
  omega

/-- An acknowledgement, or a probe. -/
theorem genuine_control (back : Link y x nsy hsx) {cmd : UInt32} (byte : cmd.toUInt8.toUInt32 = cmd) (push : cmd ≠ ikcpCmdPush)
    {ack : UInt32 × UInt32} (acked : cmd = ikcpCmdAck → ack ∈ x.kcp.acklist) (taken : d.taken = x.taken)
    (same' : x'.taken = x.taken) : Genuine x' hsx d (controlSegment x.kcp cmd ack).received := by
  have same := control_received x.kcp ack byte
  have reach := back.reach
  have takenLe := back.takenLe
  refine ⟨back.receiver.nxt.trans (by rw [taken]), fun pushed => absurd (same.symm.trans pushed) push, fun known => ?_,
    wnd_received_le _⟩
  obtain ⟨n, number, held, early, late⟩ := back.acks ack (acked (same.symm.trans known))
  refine ⟨n, number, ?_, ?_, ?_⟩
  · rwa [Received, same']
  · rw [taken]
    omega
  · rw [taken]
    exact late

/-- Data, where `fragments` is known of everything that has a number. -/
theorem genuine_data (back : Link y x nsy hsx) {log : List Payload} {ns : List Nat} {prepared : Ikcpcb}
    (nums : Lib.Numbered Ikcpseg.sn (Sent x.kcp.conv log) prepared.sndBuf ns) (nxt : prepared.rcvNxt = x.kcp.rcvNxt)
    (below : ∀ n ∈ ns, n < log.length ∧ log.length ≤ n + 65535) (fragments : ∀ p ∈ log, p.1.toNat < ikcpWndRcv)
    (logEq : x'.log = log) (numbered : d.numbered = log.length) (taken : d.taken = x.taken) {seg : Ikcpseg}
    (member : seg ∈ dueSegments prepared) : WellFormed x.kcp.conv seg ∧ Genuine x' hs d seg.received := by
  obtain ⟨sent, there, rfl⟩ := List.mem_map.mp member
  obtain ⟨there, due⟩ := List.mem_filter.mp there
  obtain ⟨n, inside, number, conv, push, found⟩ := nums.exists_number there
  have alike := sendSegment_alike prepared sent
  have cmd : (sendSegment prepared sent).cmd = ikcpCmdPush := alike.cmd.trans push
  have byte : (sendSegment prepared sent).received.cmd = ikcpCmdPush := by
    change (sendSegment prepared sent).cmd.toUInt8.toUInt32 = ikcpCmdPush
    rw [cmd]
    decide
  have few := fragments _ (List.mem_of_getElem? found)
  have frg : (sendSegment prepared sent).received.payload = sent.payload := by
    rw [← alike.payload] at few ⊢
    refine Prod.ext ?_ rfl
    change (sendSegment prepared sent).frg.toNat < ikcpWndRcv at few
    change (sendSegment prepared sent).frg.toUInt8.toUInt32 = (sendSegment prepared sent).frg
    rw [ikcpWndRcv] at few
    apply UInt32.toNat_inj.mp
    rw [UInt8.toNat_toUInt32, UInt32.toNat_toUInt8]
    omega
  refine ⟨⟨alike.conv.trans conv, .inl ?_⟩, ?_, fun _ => ?_, fun ack => ?_, wnd_received_le _⟩
  · rw [cmd]
    decide
  · change (sendSegment prepared sent).una = _
    rw [una_sendSegment due, nxt, back.receiver.nxt, taken]
  · refine ⟨n, alike.sn.trans number, ?_, ?_, ?_⟩
    · rw [numbered]
      exact (below n inside).1
    · rw [numbered]
      exact (below n inside).2
    · rw [Logged, logEq, frg]
      exact found
  · rw [byte] at ack
    exact absurd ack (by decide)

/-- What has a number then is a fragment of a message. -/
theorem logged_fragment {conv : Guid} (own : Local conv x) (split : x.kcp.sndQueue = numbered ++ rest) {p : Payload}
    (member : p ∈ logged x numbered) : p.2.length ≤ x.kcp.mss.toNat ∧ p.1.toNat < ikcpWndRcv := by
  refine own.fragment ?_
  rw [split, List.map_append, ← List.append_assoc]
  exact List.mem_append_left _ member

/-- Everything that a flush sends. -/
theorem genuine_flush {conv : Guid} (back : Link y x nsy hsx) (own : Local conv x) (split : x.kcp.sndQueue = numbered ++ rest)
    {ns : List Nat} (nums : Lib.Numbered Ikcpseg.sn (Sent x.kcp.conv (logged x numbered)) (prepareFlush x.kcp).sndBuf ns)
    (range : ∀ n ∈ ns, n < (logged x numbered).length ∧ (logged x numbered).length ≤ n + 65535) (taken : d.taken = x.taken)
    (same : x'.taken = x.taken) (logEq : x'.log = logged x numbered) (counted : d.numbered = (logged x numbered).length) :
    ∀ seg ∈ flushSegments x.kcp, WellFormed x.kcp.conv seg ∧ Genuine x' hsx d seg.received := by
  intro seg member
  rcases List.mem_append.mp member with control | data
  · obtain ⟨cmd, ack, rfl, which⟩ := mem_control control
    have byte : cmd.toUInt8.toUInt32 = cmd := by
      rcases which with ⟨rfl, -⟩ | rfl | rfl <;> decide
    have push : cmd ≠ ikcpCmdPush := by
      rcases which with ⟨rfl, -⟩ | rfl | rfl <;> decide
    have acked : cmd = ikcpCmdAck → ack ∈ x.kcp.acklist := by
      rintro rfl
      rcases which with ⟨-, there⟩ | ask | tell
      · exact there
      · exact absurd ask (by decide)
      · exact absurd tell (by decide)
    refine ⟨⟨rfl, ?_⟩, genuine_control back byte push acked taken same⟩
    change KnownCmd cmd.toUInt8.toUInt32
    rw [byte]
    exact .inr (which.imp_left And.left)
  · exact genuine_data back nums (prepareFlush_same x.kcp).2 range (fun p member => (logged_fragment own split member).2) logEq
      counted taken data

/-- The datagrams of a flush, each with its segments. -/
theorem groups_flush {conv : Guid} (own : Local conv x) (split : x.kcp.sndQueue = numbered ++ rest) {ns : List Nat}
    (nums : Lib.Numbered Ikcpseg.sn (Sent x.kcp.conv (logged x numbered)) (prepareFlush x.kcp).sndBuf ns) :
    ∃ groups : List (List Ikcpseg), flushOutput headerSize x.kcp = groups.map (fun group => group.flatMap wire) ∧
      groups.flatten = flushSegments x.kcp ∧ (∀ group ∈ groups, group ≠ []) ∧
      ∀ group ∈ groups, (group.flatMap wire).length < 2 ^ 31 := by
  have mtu := own.mtu
  have small := own.small
  have allFit : ∀ seg ∈ (prepareFlush x.kcp).sndBuf, headerSize + seg.data.length ≤ x.kcp.mtu.toNat := by
    intro seg member
    obtain ⟨n, -, -, -, -, found⟩ := nums.exists_number member
    have size : seg.data.length ≤ x.kcp.mss.toNat := (logged_fragment own split (List.mem_of_getElem? found)).1
    omega
  obtain ⟨groups, packed, flat, nonempty, short⟩ := flushOutput_eq (Nat.le_refl headerSize) (by omega) allFit
  refine ⟨groups, packed, flat, nonempty, fun group member => ?_⟩
  have room := short group member
  omega

/-- What `ikcp_flush` makes of the end that calls it. -/
structure Departed (conv : Guid) (x y : Endpoint) (nsy hsx hsy : List Nat) (kcp' : Ikcpcb) (output : List (List UInt8))
    (nsx' : List Nat) : Prop where
  there : Link (x.emit kcp' output).1 y nsx' hsy
  back : Link y (x.emit kcp' output).1 nsy hsx
  own : Local conv (x.emit kcp' output).1
  /-- The datagrams are made of all segments that are sent. -/
  groups : ∃ groups : List (List Ikcpseg), output = groups.map (fun group => group.flatMap wire) ∧
    groups.flatten = flushSegments x.kcp ∧ ∀ group ∈ groups, ∀ d ∈ (x.emit kcp' output).2, d.bytes = group.flatMap wire →
      Carries (x.emit kcp' output).1 hsx d group
  log : x.log <+: (x.emit kcp' output).1.log
  told : x.told ≤ (x.emit kcp' output).1.told
  rcvQueue : kcp'.rcvQueue = x.kcp.rcvQueue
  mss : kcp'.mss = x.kcp.mss

theorem Departed.carried {conv : Guid} {output : List (List UInt8)} {kcp' : Ikcpcb} {nsx' : List Nat}
    (departed : Departed conv x y nsy hsx hsy kcp' output nsx') :
    ∀ d ∈ (x.emit kcp' output).2, Carried (x.emit kcp' output).1 hsx d := by
  intro d member
  obtain ⟨groups, packed, -, carries⟩ := departed.groups
  obtain ⟨bytes, there, same⟩ := List.mem_map.mp member
  obtain ⟨group, inside, made⟩ := List.mem_map.mp (packed ▸ there)
  refine ⟨group, carries group inside d member ?_⟩
  rw [← same]
  exact made.symm

theorem emit_eq {kcp' : Ikcpcb} (output : List (List UInt8)) (split : x.kcp.sndQueue = numbered ++ rest)
    (left : kcp'.sndQueue = rest) : x.emit kcp' output =
      ({ x with kcp := kcp', log := logged x numbered, told := if output = [] then x.told else x.taken },
        output.map fun bytes => ⟨bytes, (logged x numbered).length, x.taken⟩) := by
  have front : x.kcp.sndQueue.take (x.kcp.sndQueue.length - kcp'.sndQueue.length) = numbered := by
    rw [left, split, List.length_append, Nat.add_sub_cancel, List.take_left]
  unfold Endpoint.emit
  rw [front]
  rfl

theorem Link.flush {conv : Guid} (there : Link x y nsx hsy) (back : Link y x nsy hsx) (own : Local conv x)
    (updated : x.kcp.updated = true) :
    ∃ nsx', Departed conv x y nsy hsx hsy (ikcpFlush headerSize x.kcp).1 (ikcpFlush headerSize x.kcp).2 nsx' := by
  obtain ⟨numbered, rest, tsProbe, probeWait, ssthresh, cwnd, incr, result, filled, prepared⟩ := @flush_eq headerSize x.kcp updated
  have output : (ikcpFlush headerSize x.kcp).2 = flushOutput headerSize x.kcp := by
    unfold ikcpFlush
    rw [if_pos updated]
  have small := Nat.le_trans (windowSize_le x.kcp) own.rmtWnd
  have unacked := unacked_logged there.sender small filled
  have alike := sendSegments_alike (prepareFlush x.kcp) (x.kcp.sndBuf ++ numberAll x.kcp x.kcp.sndNxt numbered)
  have range : ∀ n ∈ given x nsx numbered, n < (logged x numbered).length ∧ (logged x numbered).length ≤ n + 65535 := by
    intro n member
    have window := unacked.window
    have first : (given x nsx numbered).headD (logged x numbered).length ≤ n := headD_le_of_mem unacked.sorted member
    exact ⟨unacked.below n member, by omega⟩
  have nums : Lib.Numbered Ikcpseg.sn (Sent x.kcp.conv (logged x numbered)) (prepareFlush x.kcp).sndBuf (given x nsx numbered) := by
    rw [prepared]
    exact unacked.nums
  obtain ⟨groups, packed, flat, nonempty, short⟩ := groups_flush own filled.split nums
  rw [output]
  generalize (ikcpFlush headerSize x.kcp).1 = kcp' at result
  have queue : kcp'.sndQueue = rest := by rw [result]
  have emitted := @emit_eq x numbered rest kcp' (flushOutput headerSize x.kcp) filled.split queue
  refine ⟨given x nsx numbered, ?_⟩
  generalize flushOutput headerSize x.kcp = output at packed emitted
  have told : x.told ≤ if output = [] then x.told else x.taken := by
    split
    · exact Nat.le_refl _
    · exact back.told
  have toldLe : (if output = [] then x.told else x.taken) ≤ x.taken := by
    split
    · exact back.told
    · exact Nat.le_refl _
  have log : x.log <+: logged x numbered := List.prefix_append _ _
  have kcpConv : kcp'.conv = x.kcp.conv := by rw [result]
  have receiver : SameReceiver x.kcp kcp' := by
    rw [result]
    exact ⟨rfl, rfl, rfl, rfl, rfl⟩
  refine ⟨?_, ?_, ?_, ⟨groups, packed, flat, ?_⟩, ?_, ?_, receiver.rcvQueue, ?_⟩
  · have sender : Unacked (Sent kcp'.conv (logged x numbered)) kcp' (logged x numbered).length (given x nsx numbered) := by
      rw [kcpConv]
      refine unacked.alike (?_ : SameSegments _ kcp'.sndBuf) (fun n seg seg' alike sent => ?_) ?_ ?_ ?_
      · rw [result]
        exact alike
      · exact ⟨alike.conv.trans sent.1, alike.cmd.trans sent.2.1, sent.2.2.trans (congrArg some alike.payload.symm)⟩
      · rw [result]
        rfl
      · rw [result]
        rfl
      · rw [result]
        rfl
    rw [emitted]
    refine there.number sender log (fun n old => List.mem_append_left _ old) fun n low high => ?_
    dsimp only at high
    rw [length_logged] at high
    exact List.mem_append_right _ (List.mem_range'_1.mpr ⟨low, high⟩)
  · rw [emitted]
    refine back.tell receiver ?_ rfl told toldLe
    rw [result]
  · have whole : logged x numbered ++ rest.map Ikcpseg.payload = x.log ++ x.kcp.sndQueue.map Ikcpseg.payload := by
      rw [filled.split, logged, List.map_append, List.append_assoc]
    rw [emitted, result]
    refine ⟨own.conv, own.stream, own.mtu, own.some, own.small, own.least, own.most, own.rmtWnd, ?_, whole.trans own.messages, own.few⟩
    dsimp only
    rw [own.queued, filled.split, List.length_append, UInt32.ofNat_add, UInt32.add_comm, UInt32.add_sub_cancel]
  · rw [emitted]
    intro group inside d member bytes
    obtain ⟨_, there, rfl⟩ := List.mem_map.mp member
    refine ⟨Nat.le_refl _, ?_, nonempty group inside, bytes, short group inside, fun seg sent => ?_⟩
    · dsimp only
      rw [if_neg (List.ne_nil_of_mem there)]
    · dsimp only
      rw [kcpConv]
      refine genuine_flush back own filled.split nums range ?_ ?_ ?_ ?_ seg (flat ▸ List.mem_flatten.mpr ⟨group, inside, sent⟩)
      · rfl
      · rfl
      · rfl
      · rfl
  · rw [emitted]
    exact log
  · rw [emitted]
    exact told
  · rw [result]

end

end Xxlib.Kcp
