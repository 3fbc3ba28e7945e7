import Xxlib.Kcp.Arrival
import Xxlib.Kcp.Departure

/-! What two ends learn from each other: an end that hears data or a probe has something to tell, what it tells clears the buffer
of the other end, and then more can be numbered (`test_uv_3/ikcp.h`).
-/

set_option autoImplicit false

namespace Xxlib.Kcp

open Session (lifetime windowLimit Fresh)

/-! ## Flags -/

/-- What is set stays set. -/
theorem or_and_ne_zero {p q r : UInt32} (set : p &&& r ≠ 0) : (p ||| q) &&& r ≠ 0 := by
  intro none
  apply set
  apply UInt32.toBitVec_inj.mp
  have bits := congrArg UInt32.toBitVec none
  ext i inside
  have bit := congrArg (fun v => v.getLsbD i) bits
  simp at bit ⊢
  grind

theorem or_self_and_ne_zero {p r : UInt32} (some : r ≠ 0) : (p ||| r) &&& r ≠ 0 := by
  rw [UInt32.or_comm]
  apply or_and_ne_zero
  rwa [UInt32.and_self]

/-- A flush has something to tell: acknowledgements, or its window. -/
def Asked (kcp : Ikcpcb) : Prop := kcp.acklist ≠ [] ∨ kcp.probe &&& ikcpAskTell ≠ 0

section
variable {kcp : Ikcpcb} {seg : Ikcpseg} {segs : List Ikcpseg} {maxack : Option UInt32}

/-! ## Input -/

theorem acknowledge_asked (kcp : Ikcpcb) (seg : Ikcpseg) : (acknowledge kcp seg).acklist = kcp.acklist ∧
    (acknowledge kcp seg).probe = kcp.probe := by
  obtain ⟨_, _, _, _, _, result, -⟩ := acknowledge_spec kcp seg
  rw [result]
  exact ⟨rfl, rfl⟩

/-- Data that are inside of the window are acknowledged, and put away if they are new. -/
theorem accept_push (push : seg.cmd = ikcpCmdPush) (inside : itimediff seg.sn (kcp.rcvNxt + kcp.rcvWnd) < 0) :
    (accept kcp seg).acklist = kcp.acklist ++ [(seg.sn, seg.ts)] ∧ (accept kcp seg).probe = kcp.probe := by
  have whole : accept kcp seg = if 0 ≤ itimediff seg.sn (ikcpAckPush kcp seg.sn seg.ts).rcvNxt then
      ikcpParseData (ikcpAckPush kcp seg.sn seg.ts) seg else ikcpAckPush kcp seg.sn seg.ts := by
    unfold accept
    rw [if_pos push, if_pos inside]
  rw [whole]
  by_cases new : 0 ≤ itimediff seg.sn (ikcpAckPush kcp seg.sn seg.ts).rcvNxt
  · obtain ⟨_, _, _, _, _, result⟩ := parseData_only (ikcpAckPush kcp seg.sn seg.ts) seg
    rw [if_pos new, result]
    exact ⟨rfl, rfl⟩
  · rw [if_neg new]
    exact ⟨rfl, rfl⟩

theorem accept_wask (wask : seg.cmd = ikcpCmdWask) : accept kcp seg = { kcp with probe := kcp.probe ||| ikcpAskTell } := by
  have push : seg.cmd ≠ ikcpCmdPush := by
    rw [wask]
    decide
  unfold accept
  rw [if_neg push, if_pos wask]

/-- Anything else changes nothing. -/
theorem accept_other (push : ¬ (seg.cmd = ikcpCmdPush ∧ itimediff seg.sn (kcp.rcvNxt + kcp.rcvWnd) < 0))
    (wask : seg.cmd ≠ ikcpCmdWask) : accept kcp seg = kcp := by
  unfold accept
  by_cases data : seg.cmd = ikcpCmdPush
  · have beyond : ¬ itimediff seg.sn (kcp.rcvNxt + kcp.rcvWnd) < 0 := fun inside => push ⟨data, inside⟩
    rw [if_pos data, if_neg beyond]
  · rw [if_neg data, if_neg wask]

/-- Nothing that arrives takes back what is to be told. -/
theorem accept_tells (kcp : Ikcpcb) (seg : Ikcpseg) : kcp.acklist <+: (accept kcp seg).acklist ∧
    (kcp.probe &&& ikcpAskTell ≠ 0 → (accept kcp seg).probe &&& ikcpAskTell ≠ 0) := by
  by_cases wask : seg.cmd = ikcpCmdWask
  · rw [accept_wask wask]
    exact ⟨List.prefix_refl _, or_and_ne_zero⟩
  · by_cases push : seg.cmd = ikcpCmdPush ∧ itimediff seg.sn (kcp.rcvNxt + kcp.rcvWnd) < 0
    · rw [(accept_push push.1 push.2).1, (accept_push push.1 push.2).2]
      exact ⟨List.prefix_append _ _, id⟩
    · rw [accept_other push wask]
      exact ⟨List.prefix_refl _, id⟩

theorem inputSegments_cons (kcp : Ikcpcb) (maxack : Option UInt32) (seg : Ikcpseg) (segs : List Ikcpseg) :
    inputSegments kcp maxack (seg :: segs) =
      inputSegments (accept (acknowledge kcp seg) seg) (inputSegment kcp maxack seg).2 segs := by
  rw [← inputSegment_eq kcp maxack seg]
  rfl

theorem inputSegments_append (kcp : Ikcpcb) (maxack : Option UInt32) (segs segs' : List Ikcpseg) :
    inputSegments kcp maxack (segs ++ segs') =
      inputSegments (inputSegments kcp maxack segs).1 (inputSegments kcp maxack segs).2 segs' := by
  unfold inputSegments
  rw [List.foldl_append]

theorem inputSegments_tells (kcp : Ikcpcb) (maxack : Option UInt32) (segs : List Ikcpseg) :
    kcp.acklist <+: (inputSegments kcp maxack segs).1.acklist ∧
      (kcp.probe &&& ikcpAskTell ≠ 0 → (inputSegments kcp maxack segs).1.probe &&& ikcpAskTell ≠ 0) := by
  induction segs generalizing kcp maxack with
  | nil => exact ⟨List.prefix_refl _, id⟩
  | cons seg segs ih =>
    rw [inputSegments_cons]
    obtain ⟨acklist, probe⟩ := acknowledge_asked kcp seg
    have first := accept_tells (acknowledge kcp seg) seg
    rw [acklist, probe] at first
    have later := ih (accept (acknowledge kcp seg) seg) (inputSegment kcp maxack seg).2
    exact ⟨first.1.trans later.1, fun set => later.2 (first.2 set)⟩

theorem Asked.mono {kcp' : Ikcpcb} (asked : Asked kcp) (tells : kcp.acklist <+: kcp'.acklist ∧
    (kcp.probe &&& ikcpAskTell ≠ 0 → kcp'.probe &&& ikcpAskTell ≠ 0)) : Asked kcp' := by
  refine asked.imp (fun some none => ?_) tells.2
  rw [none, List.prefix_nil] at tells
  exact some tells.1

theorem inputDatagram_tells (kcp : Ikcpcb) (segs : List Ikcpseg) :
    (inputDatagram kcp segs).acklist = (inputSegments kcp none (segs.map Ikcpseg.received)).1.acklist ∧
      (inputDatagram kcp segs).probe = (inputSegments kcp none (segs.map Ikcpseg.received)).1.probe := by
  obtain ⟨_, _, _, result, -⟩ := finishInput_eq kcp.sndUna (inputSegments kcp none (segs.map Ikcpseg.received)).1
    (inputSegments kcp none (segs.map Ikcpseg.received)).2
  unfold inputDatagram
  rw [result]
  exact ⟨rfl, rfl⟩

/-- Whoever hears a probe has its window to tell. -/
theorem asked_inputDatagram (member : seg ∈ segs) (wask : seg.received.cmd = ikcpCmdWask) : Asked (inputDatagram kcp segs) := by
  obtain ⟨acklist, probe⟩ := inputDatagram_tells kcp segs
  obtain ⟨before, behind, rfl⟩ := List.append_of_mem member
  unfold Asked
  rw [acklist, probe, List.map_append, List.map_cons, inputSegments_append, inputSegments_cons]
  refine Asked.mono (.inr ?_) (inputSegments_tells _ _ _)
  rw [accept_wask wask]
  exact or_self_and_ne_zero (by decide)

/-! ## What is acknowledged is forgotten -/

theorem acknowledge_clears (all : ∀ sent ∈ kcp.sndBuf, 0 < itimediff seg.una sent.sn) : (acknowledge kcp seg).sndBuf = [] := by
  have dropped : (ikcpShrinkBuf (ikcpParseUna { kcp with rmtWnd := seg.wnd } seg.una)).sndBuf = [] := by
    rw [shrinkBuf_eq]
    change (ikcpParseUnaLoop seg.una { kcp with rmtWnd := seg.wnd } kcp.sndBuf).sndBuf = []
    rw [parseUnaLoop_eq]
    exact List.dropWhile_eq_nil_iff.mpr fun sent member => decide_eq_true (all sent member)
  unfold acknowledge
  dsimp only
  generalize ikcpShrinkBuf (ikcpParseUna { kcp with rmtWnd := seg.wnd } seg.una) = kcp₁ at dropped
  split
  · obtain ⟨_, _, _, timed, -⟩ := timed_eq kcp₁ seg.ts
    obtain ⟨sndBuf, _, result, reduced⟩ := parseAck_shrink
      (if 0 ≤ itimediff kcp₁.current seg.ts then ikcpUpdateAck kcp₁ (Int32.ofInt (itimediff kcp₁.current seg.ts)) else kcp₁) seg.sn
    have none : (if 0 ≤ itimediff kcp₁.current seg.ts then
        ikcpUpdateAck kcp₁ (Int32.ofInt (itimediff kcp₁.current seg.ts)) else kcp₁).sndBuf = [] := by
      rw [timed]
      exact dropped
    have sublist := reduced.sublist
    rw [none] at sublist
    rw [result]
    exact List.sublist_nil.mp sublist
  · exact dropped

/-- Segments that acknowledge everything leave nothing, and the last of them says how large the window is. -/
theorem inputSegments_clears (some : segs ≠ []) (all : ∀ seg ∈ segs, ∀ sent ∈ kcp.sndBuf, 0 < itimediff seg.una sent.sn)
    (wnd : ∀ seg ∈ segs, seg.wnd ≠ 0) :
    (inputSegments kcp maxack segs).1.sndBuf = [] ∧ (inputSegments kcp maxack segs).1.rmtWnd ≠ 0 := by
  induction segs generalizing kcp maxack with
  | nil => exact absurd rfl some
  | cons seg segs ih =>
    obtain ⟨_, sender, rmtWnd⟩ := accept_config (acknowledge kcp seg) seg
    have cleared : (accept (acknowledge kcp seg) seg).sndBuf = [] :=
      sender.sndBuf.trans (acknowledge_clears fun sent => all seg List.mem_cons_self sent)
    rw [inputSegments_cons]
    by_cases last : segs = []
    · rw [last]
      refine ⟨cleared, ?_⟩
      change (accept (acknowledge kcp seg) seg).rmtWnd ≠ 0
      rw [rmtWnd, (acknowledge_config kcp seg).2.2.2]
      exact wnd seg List.mem_cons_self
    · refine ih last (fun seg' _ sent member => ?_) fun seg' member => wnd seg' (List.mem_cons_of_mem seg member)
      rw [cleared] at member
      cases member

theorem inputDatagram_clears (some : segs ≠ []) (all : ∀ seg ∈ segs, ∀ sent ∈ kcp.sndBuf, 0 < itimediff seg.una sent.sn)
    (wnd : ∀ seg ∈ segs, seg.received.wnd ≠ 0) : (inputDatagram kcp segs).sndBuf = [] ∧ (inputDatagram kcp segs).rmtWnd ≠ 0 := by
  obtain ⟨sndBuf, _, _, result, same⟩ := finishInput_eq kcp.sndUna (inputSegments kcp none (segs.map Ikcpseg.received)).1
    (inputSegments kcp none (segs.map Ikcpseg.received)).2
  obtain ⟨none, open'⟩ := @inputSegments_clears kcp (segs.map Ikcpseg.received) none (by simpa using some)
    (by
      intro seg member
      obtain ⟨sent, there, rfl⟩ := List.mem_map.mp member
      exact all sent there)
    (by
      intro seg member
      obtain ⟨sent, there, rfl⟩ := List.mem_map.mp member
      exact wnd sent there)
  unfold inputDatagram
  rw [result]
  rw [none] at same
  exact ⟨List.forall₂_nil_left_iff.mp same, open'⟩

/-! ## Flush -/

theorem flushSegments_ne_nil (asked : Asked kcp) : flushSegments kcp ≠ [] := by
  have some : kcp.acklist.map (controlSegment kcp ikcpCmdAck) ++
      probeSegments (probeWindow kcp) (kcp.acklist.getLastD (0, 0)) ≠ [] := by
    rcases asked with acks | tell
    · exact List.append_ne_nil_of_left_ne_nil (mt List.map_eq_nil_iff.mp acks) _
    · refine List.append_ne_nil_of_right_ne_nil _ (List.append_ne_nil_of_right_ne_nil _ ?_)
      have still : (probeWindow kcp).probe &&& ikcpAskTell ≠ 0 := by
        unfold probeWindow
        split
        · split
          · exact tell
          · split
            · exact or_and_ne_zero tell
            · exact tell
        · exact tell
      rw [if_pos still]
      exact List.cons_ne_nil _ _
  exact List.append_ne_nil_of_left_ne_nil some _

/-- Every segment says what has been taken, and how much room there is. -/
theorem mem_flushSegments_fields (member : seg ∈ flushSegments kcp) : seg.una = kcp.rcvNxt ∧ seg.wnd = ikcpWndUnused kcp := by
  rcases List.mem_append.mp member with control | data
  · obtain ⟨cmd, ack, rfl, -⟩ := mem_control control
    exact ⟨rfl, rfl⟩
  · obtain ⟨sent, there, rfl⟩ := List.mem_map.mp data
    obtain ⟨cause, same⟩ := Option.isSome_iff_exists.mp (List.mem_filter.mp there).2
    obtain ⟨_, _, _, _, prepared, -⟩ := prepareFlush_eq kcp
    rw [sendSegment, same, prepared]
    exact ⟨rfl, rfl⟩

theorem itimediff_self (time : UInt32) : itimediff time time = 0 := by
  have same : Lib.serialDiff (UInt32.ofNat time.toNat) (UInt32.ofNat time.toNat) = time.toNat - time.toNat :=
    Lib.serialDiff_ofNat (by omega) (by omega)
  rw [UInt32.ofNat_toNat, Int.sub_self] at same
  exact same

/-- A segment is sent again when its time has come. -/
theorem mem_flushSegments_due (member : seg ∈ kcp.sndBuf) (now : kcp.current = seg.resendts) :
    sendSegment (prepareFlush kcp) seg ∈ flushSegments kcp := by
  obtain ⟨numbered, rest, _, _, prepared, -⟩ := prepareFlush_eq kcp
  refine List.mem_append_right _ (List.mem_map.mpr ⟨seg, List.mem_filter.mpr ⟨?_, ?_⟩, rfl⟩)
  · rw [prepared]
    exact List.mem_append_left _ member
  · have time : (prepareFlush kcp).current = seg.resendts := by rw [prepared, now]
    unfold sendCause
    by_cases first : seg.xmit = 0
    · rw [if_pos first]
      rfl
    · rw [if_neg first, time, itimediff_self, if_pos (Int.le_refl 0)]
      rfl

/-- A closed window is asked for when the time has come. -/
theorem mem_flushSegments_wask (closed : kcp.rmtWnd = 0) (waits : kcp.probeWait ≠ 0) (now : kcp.current = kcp.tsProbe) :
    ∃ seg ∈ flushSegments kcp, seg.received.cmd = ikcpCmdWask := by
  have asks : (probeWindow kcp).probe &&& ikcpAskSend ≠ 0 := by
    unfold probeWindow
    rw [if_pos closed, if_neg waits, now, itimediff_self, if_pos (Int.le_refl 0)]
    exact or_self_and_ne_zero (by decide)
  refine ⟨controlSegment (probeWindow kcp) ikcpCmdWask (kcp.acklist.getLastD (0, 0)), ?_, control_received _ _ (by decide)⟩
  refine List.mem_append_left _ (List.mem_append_right _ (List.mem_append_left _ ?_))
  rw [if_pos asks]
  exact List.mem_singleton.mpr rfl

theorem shrinkCwnd_ne_zero (kcp : Ikcpcb) (cwnd resent : UInt32) (change lost : Bool) :
    (shrinkCwnd kcp cwnd resent change lost).cwnd ≠ 0 := by
  unfold shrinkCwnd
  dsimp only
  generalize (if lost = true then _ else _ : Ikcpcb) = kcp₁
  by_cases small : kcp₁.cwnd < 1
  · rw [if_pos small]
    exact (by decide : (1 : UInt32) ≠ 0)
  · rw [if_neg small]
    intro none
    rw [none] at small
    exact small (by decide)

theorem probeWait_shrinkCwnd (kcp : Ikcpcb) (cwnd resent : UInt32) (change lost : Bool) :
    (shrinkCwnd kcp cwnd resent change lost).probeWait = kcp.probeWait := by
  obtain ⟨_, _, _, result⟩ := shrinkCwnd_eq kcp cwnd resent change lost
  rw [result]

theorem flush_cwnd {overhead : Nat} (updated : kcp.updated = true) : (ikcpFlush overhead kcp).1.cwnd ≠ 0 := by
  unfold ikcpFlush
  rw [if_pos updated]
  exact shrinkCwnd_ne_zero _ _ _ _ _

/-- The first flush that finds the window closed sets the time when it is asked for. -/
theorem flush_probeWait {overhead : Nat} (updated : kcp.updated = true) (closed : kcp.rmtWnd = 0) (first : kcp.probeWait = 0) :
    (ikcpFlush overhead kcp).1.probeWait ≠ 0 := by
  have probed : (probeWindow kcp).probeWait = 7000 := by
    unfold probeWindow
    rw [if_pos closed, if_pos first]
  obtain ⟨_, _, filled, -⟩ := fillSndBuf_eq (windowSize { probeWindow kcp with acklist := [], probe := 0 })
    { probeWindow kcp with acklist := [], probe := 0 } (probeWindow kcp).sndQueue
  have prepared : (prepareFlush kcp).probeWait = 7000 := (congrArg Ikcpcb.probeWait filled).trans probed
  unfold ikcpFlush
  rw [if_pos updated]
  change (shrinkCwnd _ _ _ _ _).probeWait ≠ 0
  rw [probeWait_shrinkCwnd]
  change (prepareFlush kcp).probeWait ≠ 0
  rw [prepared]
  decide

/-- A flush numbers segments, or it leaves the queue and the buffer as long as they were. -/
theorem flush_cases {overhead : Nat} (updated : kcp.updated = true) :
    ((ikcpFlush overhead kcp).1.sndQueue.length < kcp.sndQueue.length ∨
      (ikcpFlush overhead kcp).1.sndQueue = kcp.sndQueue ∧ (ikcpFlush overhead kcp).1.sndBuf.length = kcp.sndBuf.length) ∧
    (ikcpFlush overhead kcp).1.rmtWnd = kcp.rmtWnd ∧ (ikcpFlush overhead kcp).1.sndWnd = kcp.sndWnd := by
  obtain ⟨numbered, rest, _, _, _, _, _, result, filled, -⟩ := @flush_eq overhead kcp updated
  rw [result]
  refine ⟨?_, rfl, rfl⟩
  have split := filled.split
  cases numbered with
  | nil =>
    refine .inr ⟨split.symm, ?_⟩
    rw [List.length_map, numberAll, List.append_nil]
  | cons seg numbered =>
    refine .inl ?_
    change rest.length < kcp.sndQueue.length
    rw [split, List.length_append, List.length_cons]
    omega

/-- If nothing is on its way and the window is open, something gets a number. -/
theorem flush_numbers {overhead : Nat} (updated : kcp.updated = true) (idle : kcp.sndUna = kcp.sndNxt) (some : kcp.sndQueue ≠ [])
    (opened : windowSize kcp ≠ 0) (small : (windowSize kcp).toNat ≤ 65535) :
    (ikcpFlush overhead kcp).1.sndQueue.length < kcp.sndQueue.length := by
  obtain ⟨numbered, rest, _, _, _, _, _, result, filled, -⟩ := @flush_eq overhead kcp updated
  rw [result]
  have split := filled.split
  cases numbered with
  | cons seg numbered =>
    change rest.length < kcp.sndQueue.length
    rw [split, List.length_append, List.length_cons]
    omega
  | nil =>
    have left : rest ≠ [] := by
      rintro rfl
      exact some split
    have stop := filled.stop left
    have positive : 0 < (windowSize kcp).toNat := UInt32.lt_iff_toNat_lt.mp (UInt32.pos_iff_ne_zero.mpr opened)
    have first : kcp.sndNxt + UInt32.ofNat ([] : List Ikcpseg).length = UInt32.ofNat kcp.sndNxt.toNat := by
      rw [UInt32.ofNat_toNat]
      exact UInt32.add_zero _
    have last : kcp.sndUna + windowSize kcp = UInt32.ofNat (kcp.sndNxt.toNat + (windowSize kcp).toNat) := by
      rw [idle, UInt32.ofNat_add, UInt32.ofNat_toNat, UInt32.ofNat_toNat]
    rw [first, last, itimediff, Lib.serialDiff_ofNat (by omega) (by omega)] at stop
    omega

/-! ## What is heard -/

end

section
variable {x y : Endpoint} {nsx nsy hsx hsy nsx' hsx' : List Nat} {d : Datagram} {seg : Ikcpseg} {segs moved : List Ikcpseg} {kcp' : Ikcpcb}

/-- Data that were expected, or came again, are acknowledged. -/
theorem Link.acked (there : Link x y nsx hsy) (back : Link y x nsy hsx) {conv : Guid} (own : Local conv x)
    (carries : Carries y hsy d segs) (fresh : Fresh y d) {n : Nat} (member : seg ∈ segs) (push : seg.received.cmd = ikcpCmdPush)
    (number : seg.sn = UInt32.ofNat n) (known : n ≤ x.taken) (near : x.taken ≤ n + 65535) :
    (seg.sn, seg.ts) ∈ (inputDatagram x.kcp segs).acklist := by
  have limit := Session.windowLimit_eq
  obtain ⟨before, behind, rfl⟩ := List.append_of_mem member
  have genuine : ∀ seg ∈ before.map Ikcpseg.received, Genuine y hsy d seg := by
    intro seg' member
    refine carries.received seg' ?_
    rw [List.map_append]
    exact List.mem_append_left _ member
  obtain ⟨moved, _, _, arrived⟩ := there.segments back own.least own.most own.rmtWnd carries.taken carries.numbered fresh genuine none
  rw [(inputDatagram_tells x.kcp _).1, List.map_append, List.map_cons, inputSegments_append, inputSegments_cons]
  generalize inputSegments x.kcp none (before.map Ikcpseg.received) = state at arrived
  obtain ⟨config, receiver, -, -⟩ := acknowledge_config state.1 seg.received
  have nxt := arrived.back.receiver.nxt
  have most := own.most
  have reach := back.reach
  have told := back.told
  have takenLe := arrived.back.takenLe
  dsimp only at nxt takenLe
  have inside : itimediff seg.received.sn ((Kcp.acknowledge state.1 seg.received).rcvNxt + (Kcp.acknowledge state.1 seg.received).rcvWnd) < 0 := by
    have window : (Kcp.acknowledge state.1 seg.received).rcvNxt + (Kcp.acknowledge state.1 seg.received).rcvWnd =
        UInt32.ofNat (x.taken + moved.length + x.kcp.rcvWnd.toNat) := by
      rw [receiver.rcvNxt, config.rcvWnd, arrived.config.rcvWnd, nxt, UInt32.ofNat_add (x.taken + moved.length), UInt32.ofNat_toNat]
    have least := own.least
    rw [ikcpWndRcv] at least
    change itimediff seg.sn _ < 0
    rw [window, number, itimediff, Lib.serialDiff_ofNat (by omega) (by omega)]
    omega
  refine (inputSegments_tells _ _ _).1.subset ?_
  rw [(accept_push push inside).1]
  exact List.mem_append_right _ (List.mem_singleton.mpr rfl)

/-- What was expected is taken if the queue has room. -/
theorem Arrived.taken (arrived : Arrived x y nsy hsx hsy kcp' moved nsx' hsx') (back : Link y x nsy hsx) {ts : UInt32}
    (acked : (UInt32.ofNat x.taken, ts) ∈ kcp'.acklist) (few : x.kcp.rcvQueue.length < ikcpWndRcv) : moved ≠ [] := by
  rintro rfl
  have limit := Session.windowLimit_eq
  have life := Session.lifetime_eq
  have reach := back.reach
  have takenLe := back.takenLe
  obtain ⟨n, number, received, early, late⟩ := arrived.back.acks _ acked
  dsimp only at early late number
  rw [List.length_nil] at late
  have same : n = x.taken := Lib.eq_of_ofNat_eq (by omega) (by omega) number.symm
  have queue := arrived.took.queue
  rw [List.append_nil] at queue
  rcases received with before | held
  · dsimp only at before
    rw [List.length_nil] at before
    omega
  · refine arrived.back.idle ?_ (same ▸ held)
    dsimp only
    rwa [queue]

end

end Xxlib.Kcp
