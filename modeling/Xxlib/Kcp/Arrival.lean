import Xxlib.Kcp.Transfer

/-! A datagram arrives at one end of a session: `ikcp_input` over the segments that the other end has sent. -/

set_option autoImplicit false

namespace Xxlib.Kcp

open Session (windowLimit Fresh)

section
variable {x y x' : Endpoint} {nsx nsy hsx hsy hs hs' : List Nat} {d : Datagram} {seg : Ikcpseg} {segs : List Ikcpseg}

theorem acknowledge_config (kcp : Ikcpcb) (seg : Ikcpseg) : SameConfig kcp (acknowledge kcp seg) ∧
    SameReceiver kcp (acknowledge kcp seg) ∧ (acknowledge kcp seg).acklist = kcp.acklist ∧
    (acknowledge kcp seg).rmtWnd = seg.wnd := by
  obtain ⟨sndBuf, nsndBuf, srtt, rttval, rto, result, -⟩ := acknowledge_spec kcp seg
  rw [result]
  exact ⟨⟨rfl, rfl, rfl, rfl, rfl, rfl, rfl⟩, ⟨rfl, rfl, rfl, rfl, rfl⟩, rfl, rfl⟩

theorem accept_config (kcp : Ikcpcb) (seg : Ikcpseg) : SameConfig kcp (accept kcp seg) ∧ SameSender kcp (accept kcp seg) ∧
    (accept kcp seg).rmtWnd = kcp.rmtWnd := by
  obtain ⟨rcvBuf, nrcvBuf, rcvQueue, nrcvQue, rcvNxt, acklist, probe, result⟩ := accept_only kcp seg
  rw [result]
  exact ⟨⟨rfl, rfl, rfl, rfl, rfl, rfl, rfl⟩, ⟨rfl, rfl, rfl, rfl, rfl⟩, rfl⟩

/-- What segments of `y` have made of `x`: `kcp'` is its control block, and `moved` has come to its queue. -/
structure Arrived (x y : Endpoint) (nsy hsx hsy : List Nat) (kcp' : Ikcpcb) (moved : List Ikcpseg) (nsx' hsx' : List Nat) :
    Prop where
  there : Link { x with kcp := kcp', taken := x.taken + moved.length } y nsx' hsy
  back : Link y { x with kcp := kcp', taken := x.taken + moved.length } nsy hsx'
  took : Took y x x.kcp.rcvQueue moved kcp'
  kept : ∀ n, Received x hsx n → n < x.taken + moved.length ∨ n ∈ hsx'
  config : SameConfig x.kcp kcp'
  rmtWnd : kcp'.rmtWnd.toNat ≤ 65535

theorem Arrived.refl (there : Link x y nsx hsy) (back : Link y x nsy hsx) (rmtWnd : x.kcp.rmtWnd.toNat ≤ 65535) :
    Arrived x y nsy hsx hsy x.kcp [] nsx hsx where
  there := there
  back := back
  took := ⟨(List.append_nil _).symm, (UInt32.add_zero _).symm, (List.append_nil _).symm⟩
  kept _ received := received
  config := ⟨rfl, rfl, rfl, rfl, rfl, rfl, rfl⟩
  rmtWnd := rmtWnd

theorem Arrived.trans {kcp₁ kcp₂ : Ikcpcb} {moved₁ moved₂ : List Ikcpseg} {nsx₁ nsx₂ hsx₁ hsx₂ : List Nat}
    (first : Arrived x y nsy hsx hsy kcp₁ moved₁ nsx₁ hsx₁)
    (second : Arrived { x with kcp := kcp₁, taken := x.taken + moved₁.length } y nsy hsx₁ hsy kcp₂ moved₂ nsx₂ hsx₂) :
    Arrived x y nsy hsx hsy kcp₂ (moved₁ ++ moved₂) nsx₂ hsx₂ := by
  have sum : x.taken + (moved₁ ++ moved₂).length = x.taken + moved₁.length + moved₂.length := by
    rw [List.length_append, Nat.add_assoc]
  refine ⟨?_, ?_, ⟨?_, ?_, ?_⟩, ?_, first.config.trans second.config, second.rmtWnd⟩
  · rw [sum]
    exact second.there
  · rw [sum]
    exact second.back
  · rw [second.took.queue, ← List.append_assoc, ← first.took.queue]
  · rw [second.took.nxt, List.length_append, UInt32.ofNat_add, ← UInt32.add_assoc, ← first.took.nxt]
  · have log := second.took.log
    dsimp only at log
    rw [sum, log, first.took.log, List.map_append, List.append_assoc]
  · intro n received
    rw [sum]
    exact second.kept n (first.kept n received)

/-- One segment of `y`. -/
theorem Link.segment (there : Link x y nsx hsy) (back : Link y x nsy hsx) (least : ikcpWndRcv ≤ x.kcp.rcvWnd.toNat)
    (most : x.kcp.rcvWnd.toNat ≤ windowLimit) (takenLe : d.taken ≤ y.told) (numbered : d.numbered ≤ y.log.length)
    (fresh : Fresh y d) (genuine : Genuine y hsy d seg) (maxack : Option UInt32) :
    ∃ moved nsx' hsx', Arrived x y nsy hsx hsy (inputSegment x.kcp maxack seg).1 moved nsx' hsx' := by
  obtain ⟨config₁, receiver, acklist, rmtWnd⟩ := acknowledge_config x.kcp seg
  obtain ⟨config₂, sender, rmtWnd₂⟩ := accept_config (Kcp.acknowledge x.kcp seg) seg
  obtain ⟨nsx', there₁⟩ := there.acknowledge takenLe fresh genuine
  have back₁ : Link y { x with kcp := Kcp.acknowledge x.kcp seg } nsy hsx :=
    back.congr ⟨rfl, rfl, rfl, rfl, rfl⟩ rfl receiver acklist rfl rfl
  rw [inputSegment_eq]
  obtain ⟨moved, hsx', back₂, took, kept⟩ := back₁.accept (by rwa [config₁.rcvWnd]) (by rwa [config₁.rcvWnd]) numbered fresh genuine
  refine ⟨moved, nsx', hsx', ?_, back₂, ⟨?_, ?_, took.log⟩, kept, config₁.trans config₂, ?_⟩
  · exact there₁.congr sender rfl ⟨rfl, rfl, rfl, rfl, rfl⟩ rfl rfl rfl
  · rw [← receiver.rcvQueue]
    exact took.queue
  · rw [← receiver.rcvNxt]
    exact took.nxt
  · rw [rmtWnd₂, rmtWnd]
    exact genuine.wnd

/-- All segments of a datagram. -/
theorem Link.segments (there : Link x y nsx hsy) (back : Link y x nsy hsx) (least : ikcpWndRcv ≤ x.kcp.rcvWnd.toNat)
    (most : x.kcp.rcvWnd.toNat ≤ windowLimit) (rmtWnd : x.kcp.rmtWnd.toNat ≤ 65535) (takenLe : d.taken ≤ y.told)
    (numbered : d.numbered ≤ y.log.length) (fresh : Fresh y d) (genuine : ∀ seg ∈ segs, Genuine y hsy d seg)
    (maxack : Option UInt32) :
    ∃ moved nsx' hsx', Arrived x y nsy hsx hsy (inputSegments x.kcp maxack segs).1 moved nsx' hsx' := by
  induction segs generalizing x nsx hsx maxack with
  | nil => exact ⟨[], nsx, hsx, .refl there back rmtWnd⟩
  | cons seg segs ih =>
    obtain ⟨moved₁, nsx₁, hsx₁, first⟩ :=
      there.segment back least most takenLe numbered fresh (genuine seg List.mem_cons_self) maxack
    obtain ⟨moved₂, nsx₂, hsx₂, second⟩ := ih first.there first.back (by rwa [first.config.rcvWnd]) (by rwa [first.config.rcvWnd])
      first.rmtWnd (fun seg member => genuine seg (List.mem_cons_of_mem _ member)) (inputSegment x.kcp maxack seg).2
    exact ⟨_, nsx₂, hsx₂, first.trans second⟩

/-- What `ikcp_input` does behind its loop is of no interest to the other end. -/
theorem Link.finish (there : Link x y nsx hsy) (back : Link y x nsy hsx) (rmtWnd : x.kcp.rmtWnd.toNat ≤ 65535) (una : UInt32)
    (maxack : Option UInt32) : Arrived x y nsy hsx hsy (finishInput una x.kcp maxack) [] nsx hsx := by
  obtain ⟨sndBuf, cwnd, incr, result, same⟩ := finishInput_eq una x.kcp maxack
  rw [result]
  refine ⟨?_, ?_, ⟨?_, ?_, ?_⟩, fun n received => received, ⟨rfl, rfl, rfl, rfl, rfl, rfl, rfl⟩, rmtWnd⟩
  · have respects : ∀ n seg seg', Alike seg seg' → Sent x.kcp.conv x.log n seg → Sent x.kcp.conv x.log n seg' := by
      intro n seg seg' alike sent
      exact ⟨alike.conv.trans sent.1, alike.cmd.trans sent.2.1, sent.2.2.trans (congrArg some alike.payload.symm)⟩
    exact ⟨there.sender.alike same respects rfl rfl rfl, there.receiver, there.idle, there.below, there.takenLe, there.kept,
      there.told, there.lag, there.acks⟩
  · exact back.congr ⟨rfl, rfl, rfl, rfl, rfl⟩ rfl ⟨rfl, rfl, rfl, rfl, rfl⟩ rfl rfl rfl
  · exact (List.append_nil _).symm
  · exact (UInt32.add_zero _).symm
  · exact (List.append_nil _).symm

/-- How much a receiver has taken is seen from `rcv_nxt`. -/
theorem Took.grown {kcp' : Ikcpcb} {moved queue : List Ikcpseg} (took : Took y x queue moved kcp')
    (queued : kcp'.nrcvQue.toNat = kcp'.rcvQueue.length) : grown x.kcp.rcvNxt kcp'.rcvNxt = moved.length := by
  have small := kcp'.nrcvQue.toNat_lt
  rw [queued, took.queue, List.length_append] at small
  rw [Kcp.grown, took.nxt, UInt32.add_comm, UInt32.add_sub_cancel, UInt32.toNat_ofNat']
  omega

/-- What `ikcp_input` makes of the segments of a datagram. -/
def inputDatagram (kcp : Ikcpcb) (segs : List Ikcpseg) : Ikcpcb :=
  finishInput kcp.sndUna (inputSegments kcp none (segs.map Ikcpseg.received)).1
    (inputSegments kcp none (segs.map Ikcpseg.received)).2

theorem Carries.received (carries : Carries y hsy d segs) : ∀ seg ∈ segs.map Ikcpseg.received, Genuine y hsy d seg := by
  intro seg member
  obtain ⟨sent, there, rfl⟩ := List.mem_map.mp member
  exact (carries.each sent there).2

/-- A datagram of `y` is taken by `x`, and `ikcp_input` succeeds. -/
theorem Link.input (there : Link x y nsx hsy) (back : Link y x nsy hsx) {conv : Guid} (own : Local conv x)
    (same : y.kcp.conv = x.kcp.conv) (carries : Carries y hsy d segs) (fresh : Fresh y d) :
    ∃ moved nsx' hsx', ikcpInput headerSize x.kcp d.bytes d.bytes.length = .returned 0 (inputDatagram x.kcp segs) ∧
      x.input d.bytes = { x with kcp := inputDatagram x.kcp segs, taken := x.taken + moved.length } ∧
      Arrived x y nsy hsx hsy (inputDatagram x.kcp segs) moved nsx' hsx' := by
  have wellFormed : ∀ seg ∈ segs, WellFormed x.kcp.conv seg := by
    intro seg member
    rw [← same]
    exact (carries.each seg member).1
  have returned : ikcpInput headerSize x.kcp d.bytes d.bytes.length = .returned 0 (inputDatagram x.kcp segs) := by
    rw [carries.bytes]
    exact input_wire carries.some wellFormed carries.small
  obtain ⟨moved, nsx', hsx', arrived⟩ := there.segments back own.least own.most own.rmtWnd carries.taken carries.numbered fresh
    carries.received none
  have whole : Arrived x y nsy hsx hsy (inputDatagram x.kcp segs) moved nsx' hsx' := by
    unfold inputDatagram
    generalize inputSegments x.kcp none (segs.map Ikcpseg.received) = state at arrived
    have finished := arrived.there.finish arrived.back arrived.rmtWnd x.kcp.sndUna state.2
    have whole := arrived.trans finished
    rwa [List.append_nil] at whole
  refine ⟨moved, nsx', hsx', returned, ?_, whole⟩
  have grown := whole.took.grown whole.back.receiver.queued
  unfold Endpoint.input
  rw [returned]
  dsimp only
  rw [grown]

end

end Xxlib.Kcp
