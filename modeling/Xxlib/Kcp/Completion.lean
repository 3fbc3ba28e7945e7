import Mathlib.Logic.Relation
import Xxlib.Kcp.Answers
import Xxlib.Kcp.Runs

/-! A session can always be completed: whatever the network has lost, repeated or changed the order of, there is a way on that
hands over everything that was sent (`test_uv_3/ikcp.h`).

The way on lets time pass, lets datagrams arrive that are not out of date, and takes messages. It sends nothing new.
-/

set_option autoImplicit false

namespace Xxlib.Kcp

open Session (windowLimit Fresh)

/-- Nothing new is sent, and nothing is configured. -/
def Act.Quiet : Act → Prop
  | .recv _ | .deliver _ | .update _ | .flush => True
  | .send _ | .wndsize .. | .nodelay .. | .minrto _ => False

/-! ## What goes on at one end -/

/-- An end has gone on, and nothing new was sent or configured. -/
structure Went (e e' : Endpoint) : Prop where
  sent : e'.sent = e.sent
  mss : e'.kcp.mss = e.kcp.mss
  sndWnd : e'.kcp.sndWnd = e.kcp.sndWnd
  rcvWnd : e'.kcp.rcvWnd = e.kcp.rcvWnd
  got : e.got <+: e'.got
  taken : e.taken ≤ e'.taken

section
variable {e e' e'' : Endpoint}

theorem Went.refl (e : Endpoint) : Went e e := ⟨rfl, rfl, rfl, rfl, List.prefix_refl _, Nat.le_refl _⟩

theorem Went.trans (first : Went e e') (second : Went e' e'') : Went e e'' where
  sent := second.sent.trans first.sent
  mss := second.mss.trans first.mss
  sndWnd := second.sndWnd.trans first.sndWnd
  rcvWnd := second.rcvWnd.trans first.rcvWnd
  got := first.got.trans second.got
  taken := Nat.le_trans first.taken second.taken

theorem recv_went (e : Endpoint) (len : Int) : Went e (e.recv len) := by
  have same : (ikcpRecv e.kcp len).2.2.mss = e.kcp.mss ∧ (ikcpRecv e.kcp len).2.2.sndWnd = e.kcp.sndWnd ∧
      (ikcpRecv e.kcp len).2.2.rcvWnd = e.kcp.rcvWnd := by
    obtain ⟨_, _, _, _, _, _, result⟩ := recv_only e.kcp len
    rw [result]
    exact ⟨rfl, rfl, rfl⟩
  unfold Endpoint.recv
  generalize ikcpRecv e.kcp len = received at same
  refine ⟨rfl, same.1, same.2.1, same.2.2, ?_, Nat.le_add_right _ _⟩
  dsimp only
  split
  · exact List.prefix_append _ _
  · exact List.prefix_refl _

theorem inputSegment_windows (kcp : Ikcpcb) (maxack : Option UInt32) (seg : Ikcpseg) :
    (inputSegment kcp maxack seg).1.mss = kcp.mss ∧ (inputSegment kcp maxack seg).1.sndWnd = kcp.sndWnd ∧
      (inputSegment kcp maxack seg).1.rcvWnd = kcp.rcvWnd := by
  rw [inputSegment_eq]
  obtain ⟨_, _, _, _, _, _, _, accepted⟩ := accept_only (acknowledge kcp seg) seg
  obtain ⟨_, _, _, _, _, acknowledged, -⟩ := acknowledge_spec kcp seg
  rw [accepted, acknowledged]
  exact ⟨rfl, rfl, rfl⟩

theorem input_went (e : Endpoint) (bytes : List UInt8) : Went e (e.input bytes) := by
  unfold Endpoint.input
  split
  · rename_i result kcp ran
    have same := @input_keeps headerSize e.kcp kcp bytes bytes.length
      (fun kcp => kcp.mss = e.kcp.mss ∧ kcp.sndWnd = e.kcp.sndWnd ∧ kcp.rcvWnd = e.kcp.rcvWnd) result
      (fun kcp maxack header data before => by
        obtain ⟨mss, sndWnd, rcvWnd⟩ := inputSegment_windows kcp maxack (header.segment kcp.conv data)
        exact ⟨mss.trans before.1, sndWnd.trans before.2.1, rcvWnd.trans before.2.2⟩)
      (fun kcp maxack una before => by
        obtain ⟨_, _, _, finished, -⟩ := finishInput_eq una kcp maxack
        rw [finished]
        exact before)
      ⟨rfl, rfl, rfl⟩ ran
    exact ⟨rfl, same.1, same.2.1, same.2.2, List.prefix_refl _, Nat.le_add_right _ _⟩
  · exact .refl e

theorem flush_windows (kcp : Ikcpcb) : (ikcpFlush headerSize kcp).1.mss = kcp.mss ∧
    (ikcpFlush headerSize kcp).1.sndWnd = kcp.sndWnd ∧ (ikcpFlush headerSize kcp).1.rcvWnd = kcp.rcvWnd := by
  by_cases updated : kcp.updated = true
  · obtain ⟨_, _, _, _, _, _, _, result, -⟩ := @flush_eq headerSize kcp updated
    rw [result]
    exact ⟨rfl, rfl, rfl⟩
  · have result : ikcpFlush headerSize kcp = (kcp, []) := if_neg updated
    rw [result]
    exact ⟨rfl, rfl, rfl⟩

theorem emit_went {kcp : Ikcpcb} (same : kcp.mss = e.kcp.mss ∧ kcp.sndWnd = e.kcp.sndWnd ∧ kcp.rcvWnd = e.kcp.rcvWnd)
    (output : List (List UInt8)) : Went e (e.emit kcp output).1 :=
  ⟨rfl, same.1, same.2.1, same.2.2, List.prefix_refl _, Nat.le_refl _⟩

theorem update_went (e : Endpoint) (current : UInt32) : Went e (e.update current).1 := by
  refine emit_went ?_ _
  obtain ⟨tsFlush, idle | flushes⟩ := update_eq headerSize e.kcp current
  · rw [idle]
    exact ⟨rfl, rfl, rfl⟩
  · rw [flushes]
    exact flush_windows _

end

/-! ## The clock -/

/-- An end when `ikcp_update` flushes. -/
def Endpoint.tick (e : Endpoint) (current tsFlush : UInt32) : Endpoint :=
  { e with kcp := { e.kcp with current := current, updated := true, tsFlush := tsFlush } }

theorem update_cases (e : Endpoint) (current : UInt32) : ∃ tsFlush,
    e.update current = (e.tick current tsFlush, []) ∨ e.update current = (e.tick current tsFlush).flush := by
  obtain ⟨tsFlush, idle | flushes⟩ := update_eq headerSize e.kcp current
  · have nothing : e.emit (e.tick current tsFlush).kcp [] = (e.tick current tsFlush, []) := emit_nothing rfl
    refine ⟨tsFlush, .inl (Eq.trans ?_ nothing)⟩
    unfold Endpoint.update
    rw [idle]
    rfl
  · refine ⟨tsFlush, .inr ?_⟩
    unfold Endpoint.update
    rw [flushes]
    rfl

/-! ## What is heard -/

/-- What an end has made of a datagram with the segments `segs`. -/
structure Heard (y : Endpoint) (segs : List Ikcpseg) (y' : Endpoint) : Prop where
  kcp : y'.kcp = inputDatagram y.kcp segs
  config : SameConfig y.kcp y'.kcp
  log : y'.log = y.log
  taken : y.taken ≤ y'.taken
  still : y'.taken = y.taken → y'.kcp.rcvQueue = y.kcp.rcvQueue
  /-- Data that are not new are acknowledged, and those that were expected are taken. -/
  data : ∀ seg ∈ segs, seg.received.cmd = ikcpCmdPush → ∀ n, seg.sn = UInt32.ofNat n → n ≤ y.taken → y.taken ≤ n + 65535 →
    Asked y'.kcp ∧ (n = y.taken → y.kcp.rcvQueue.length < ikcpWndRcv → y.taken < y'.taken)

section
variable {conv : Guid} {x y : Endpoint} {wx wy : List Datagram} {nsx nsy hsx hsy : List Nat} {d : Datagram} {seg : Ikcpseg}
  {segs : List Ikcpseg}

theorem Link.heard (there : Link y x nsy hsx) (back : Link x y nsx hsy) (own : Local conv y) (same : x.kcp.conv = y.kcp.conv)
    (carries : Carries x hsx d segs) (fresh : Fresh x d) : Heard y segs (y.input d.bytes) := by
  obtain ⟨moved, _, _, -, result, arrived⟩ := there.input back own same carries fresh
  rw [result]
  refine ⟨rfl, arrived.config, rfl, Nat.le_add_right _ _, fun still => ?_, fun seg member push n number known near => ?_⟩
  · have none : moved = [] := List.length_eq_zero_iff.mp (Nat.add_eq_left.mp still)
    exact arrived.took.queue.trans (by rw [none, List.append_nil])
  · have acked := there.acked back own carries fresh member push number known near
    refine ⟨.inl (List.ne_nil_of_mem acked), fun next few => ?_⟩
    rw [number, next] at acked
    exact Nat.lt_add_of_pos_right (List.length_pos_iff.mpr (arrived.taken back acked few))

/-- Any segment that a flush sends can be heard by the other end. -/
theorem Paired.heard (paired : Paired conv x y wx wy) (updated : x.kcp.updated = true) (member : seg ∈ flushSegments x.kcp) :
    ∃ d ∈ x.flush.2, ∃ segs, Fresh x.flush.1 d ∧ seg ∈ segs ∧ (∀ seg' ∈ segs, seg' ∈ flushSegments x.kcp) ∧
      Heard y segs (y.input d.bytes) := by
  obtain ⟨nsx, nsy, hsx, hsy, there, back⟩ := paired
  obtain ⟨_, departed⟩ := there.link.flush back.link there.own updated
  obtain ⟨groups, packed, flat, carries⟩ := departed.groups
  obtain ⟨group, inside, holds⟩ := List.mem_flatten.mp (flat ▸ member)
  have output : group.flatMap wire ∈ (ikcpFlush headerSize x.kcp).2 := packed ▸ List.mem_map_of_mem inside
  obtain ⟨d, sent, bytes, fresh⟩ : ∃ d ∈ x.flush.2, d.bytes = group.flatMap wire ∧ Fresh x.flush.1 d :=
    ⟨_, List.mem_map_of_mem output, rfl, Nat.le_add_right _ _, Nat.le_add_right _ _⟩
  refine ⟨d, sent, group, fresh, holds, fun seg' member => flat ▸ List.mem_flatten.mpr ⟨group, inside, member⟩, ?_⟩
  exact departed.back.heard departed.there back.own (departed.own.conv.trans back.own.conv.symm) (carries group inside d sent bytes) fresh

end

namespace Session

variable {s s' : Session} {b : Bool}

/-! ## Going on -/

def Continues (s s' : Session) : Prop := ∃ b act, act.Quiet ∧ s.Allowed b act ∧ s' = s.step b act

abbrev Reaches : Session → Session → Prop := Relation.ReflTransGen Continues

theorem set_went {e : Endpoint} (went : Went (s.ends b) e) (c : Bool) : Went (s.ends c) ((s.set b e).ends c) := by
  unfold set
  dsimp only
  by_cases same : c = b
  · rw [same, Function.update_self]
    exact went
  · rw [Function.update_of_ne same]
    exact .refl _

theorem put_went {result : Endpoint × List Datagram} (went : Went (s.ends b) result.1) (c : Bool) :
    Went (s.ends c) ((s.put b result).ends c) := set_went went c

theorem Continues.went (continues : Continues s s') (c : Bool) : Went (s.ends c) (s'.ends c) := by
  obtain ⟨b, act, quiet, -, rfl⟩ := continues
  cases act with
  | recv len => exact set_went (recv_went _ len) c
  | deliver i =>
    unfold step
    dsimp only
    split
    · exact set_went (input_went _ _) c
    · exact .refl _
  | update current => exact put_went (update_went _ current) c
  | flush => exact put_went (emit_went (flush_windows _) _) c
  | send | wndsize | nodelay | minrto => cases quiet

theorem Reaches.went (reaches : Reaches s s') (c : Bool) : Went (s.ends c) (s'.ends c) := by
  induction reaches with
  | refl => exact .refl _
  | tail _ continues ih => exact ih.trans (continues.went c)

theorem Run.reaches (run : Run s) (reaches : Reaches s s') : Run s' := by
  induction reaches with
  | refl => exact run
  | tail _ continues ih =>
    obtain ⟨b, act, -, allowed, rfl⟩ := continues
    exact ih.step b act allowed

theorem reaches_step (b : Bool) {act : Act} (quiet : act.Quiet) (allowed : s.Allowed b act) : Reaches s (s.step b act) :=
  .single ⟨b, act, quiet, allowed, rfl⟩

theorem ends_set (e : Endpoint) : (s.set b e).ends b = e ∧ (s.set b e).ends (!b) = s.ends (!b) := by
  have other : (!b) ≠ b := by cases b <;> decide
  exact ⟨Function.update_self .., Function.update_of_ne other ..⟩

theorem ends_put (result : Endpoint × List Datagram) :
    (s.put b result).ends b = result.1 ∧ (s.put b result).ends (!b) = s.ends (!b) := ends_set result.1

/-- What a step makes of a field that only `ikcp_wndsize` changes. -/
theorem sndWnd_wndsize {kcp : Ikcpcb} (some : kcp.sndWnd ≠ 0) (sndwnd rcvwnd : Int32) :
    (ikcpWndsize kcp sndwnd rcvwnd).sndWnd ≠ 0 := by
  have set : (if 0 < sndwnd then { kcp with sndWnd := sndwnd.toUInt32 } else kcp).sndWnd ≠ 0 := by
    split
    · rename_i positive
      intro none
      have value := congrArg UInt32.toNat none
      dsimp only at value
      rw [Int32.toNat_toUInt32_of_le (Int32.le_of_lt positive), UInt32.toNat_zero] at value
      have less := Int32.lt_iff_toInt_lt.mp positive
      rw [Int32.toInt_zero] at less
      have nat : sndwnd.toInt.toNat = 0 := value
      omega
    · exact some
  unfold ikcpWndsize
  dsimp only
  split
  · exact set
  · exact set

theorem sndWnd_set (before : ∀ c, (s.ends c).kcp.sndWnd ≠ 0) {e : Endpoint} (some : e.kcp.sndWnd ≠ 0) (c : Bool) :
    ((s.set b e).ends c).kcp.sndWnd ≠ 0 := by
  unfold set
  dsimp only
  by_cases same : c = b
  · rwa [same, Function.update_self]
  · rw [Function.update_of_ne same]
    exact before c

theorem Run.sndWnd (run : Run s) : ∀ c, (s.ends c).kcp.sndWnd ≠ 0 := by
  induction run with
  | start conv mtu =>
    intro c
    unfold Session.start
    dsimp only
    rcases setmtu_eq (by decide : headerSize < 50) (ikcpCreate headerSize conv) (mtu c) with refused | ⟨_, _, result, -⟩
    · rw [refused]
      exact (by decide : (32 : UInt32) ≠ 0)
    · rw [result]
      exact (by decide : (32 : UInt32) ≠ 0)
  | @step s b act before allowed ih =>
    have quiet (quiet : act.Quiet) (c : Bool) : ((s.step b act).ends c).kcp.sndWnd ≠ 0 := by
      rw [(Continues.went ⟨b, act, quiet, allowed, rfl⟩ c).sndWnd]
      exact ih c
    cases act with
    | recv | deliver | update | flush => exact quiet trivial
    | send buffer =>
      refine sndWnd_set ih ?_
      obtain ⟨_, _, _, _, _, there, -⟩ := before.paired b
      unfold Endpoint.send
      rcases send_eq there.own.stream buffer there.own.some with ⟨-, refused⟩ | ⟨-, _, -, queued⟩
      · rw [refused]
        exact ih b
      · rw [queued]
        exact ih b
    | wndsize sndwnd rcvwnd => exact sndWnd_set ih (sndWnd_wndsize (ih b) sndwnd rcvwnd)
    | nodelay nodelay interval resend nc =>
      refine sndWnd_set ih ?_
      obtain ⟨_, _, _, _, _, result, -⟩ := nodelay_eq (s.ends b).kcp nodelay interval resend nc
      rw [result]
      exact ih b
    | minrto rxMinrto => exact sndWnd_set ih (ih b)

/-- A datagram arrives at the other end. -/
theorem reaches_deliver {d : Datagram} (member : d ∈ s.wire b) (fresh : Fresh (s.ends b) d) :
    Reaches s (s.set (!b) ((s.ends (!b)).input d.bytes)) := by
  obtain ⟨i, found⟩ := List.mem_iff_getElem?.mp member
  have found : (s.wire (!(!b)))[i]? = some d := by rwa [Bool.not_not]
  have delivered : s.step (!b) (.deliver i) = s.set (!b) ((s.ends (!b)).input d.bytes) := by
    unfold step
    dsimp only
    rw [found]
  rw [← delivered]
  refine reaches_step (!b) trivial fun d' same => ?_
  rw [found] at same
  cases same
  rwa [Bool.not_not]

/-! ## Flushing at any time -/

theorem put_put (first second : Endpoint) (output : List Datagram) :
    (s.put b (first, [])).put b (second, output) = s.put b (second, output) := by
  unfold put
  simp

/-- An end can flush at any time of its clock. -/
theorem exists_tick (s : Session) (b : Bool) (current : UInt32) :
    ∃ tsFlush, Reaches s (s.put b ((s.ends b).tick current tsFlush).flush) := by
  have first : Reaches s (s.put b ((s.ends b).update current)) := @reaches_step s b (.update current) trivial trivial
  obtain ⟨tsFlush, idle | flushes⟩ := update_cases (s.ends b) current
  · -- the clock is set, and a flush follows
    rw [idle] at first
    have second := @reaches_step (s.put b ((s.ends b).tick current tsFlush, [])) b .flush trivial trivial
    change Reaches _ (put _ b (Endpoint.flush ((s.put b _).ends b))) at second
    rw [(ends_put _).1, put_put] at second
    exact ⟨tsFlush, first.trans second⟩
  · exact ⟨tsFlush, by rwa [flushes] at first⟩

/-- An end flushes, and any segment that it sends then can be heard by the other end. -/
theorem Run.talk (run : Run s) (b : Bool) (current : UInt32) : ∃ tsFlush,
    (∃ s', Reaches s s' ∧ s'.ends b = ((s.ends b).tick current tsFlush).flush.1 ∧ s'.ends (!b) = s.ends (!b)) ∧
    ∀ seg ∈ flushSegments ((s.ends b).tick current tsFlush).kcp, ∃ s' segs, Reaches s s' ∧
      s'.ends b = ((s.ends b).tick current tsFlush).flush.1 ∧ seg ∈ segs ∧
      (∀ seg' ∈ segs, seg' ∈ flushSegments ((s.ends b).tick current tsFlush).kcp) ∧ Heard (s.ends (!b)) segs (s'.ends (!b)) := by
  obtain ⟨tsFlush, reaches⟩ := exists_tick s b current
  obtain ⟨conv, paired⟩ := run.paired b
  obtain ⟨_, _, _, _, own, -⟩ := id paired
  have timed : Paired conv ((s.ends b).tick current tsFlush) (s.ends (!b)) (s.wire b) (s.wire (!b)) :=
    paired.configure ⟨⟨rfl, rfl, rfl, rfl, rfl⟩, ⟨rfl, rfl, rfl, rfl, rfl⟩, rfl, rfl, rfl, rfl, rfl, rfl, rfl⟩ own.own.least own.own.most
  refine ⟨tsFlush, ⟨_, reaches, (ends_put _).1, (ends_put _).2⟩, fun seg member => ?_⟩
  obtain ⟨d, sent, segs, fresh, inside, all, heard⟩ := timed.heard rfl member
  generalize ((s.ends b).tick current tsFlush).flush = result at reaches sent fresh ⊢
  have wires : d ∈ (s.put b result).wire b := by
    unfold put
    dsimp only
    rw [Function.update_self]
    exact List.mem_append_right _ sent
  have arrives := reaches_deliver wires (by rwa [(ends_put result).1])
  rw [(ends_put result).2] at arrives
  obtain ⟨receiver, sender⟩ := @ends_set (s.put b result) (!b) ((s.ends (!b)).input d.bytes)
  rw [Bool.not_not] at sender
  refine ⟨_, segs, reaches.trans arrives, ?_, inside, all, ?_⟩
  · rw [sender, (ends_put result).1]
  · rw [receiver]
    exact heard

/-! ## Taking messages -/

/-- An end can take messages until none is complete. -/
theorem Run.drain (run : Run s) (b : Bool) : ∃ s', Reaches s s' ∧ s'.ends (!b) = s.ends (!b) ∧ ikcpPeeksize (s'.ends b).kcp < 0 := by
  generalize left : (s.ends (!b)).sent.length - (s.ends b).got.length = k
  induction k using Nat.strongRecOn generalizing s with
  | ind k ih =>
    by_cases drained : ikcpPeeksize (s.ends b).kcp < 0
    · exact ⟨s, .refl, rfl, drained⟩
    · obtain ⟨message, next, -, handed⟩ := run.recv_next b (.inl (Int.not_lt.mp drained))
      have more := (List.getElem?_eq_some_iff.mp next).1
      have reaches := @reaches_step s b (.recv message.length) trivial trivial
      obtain ⟨self, other⟩ := @ends_set s b ((s.ends b).recv message.length)
      obtain ⟨s', later, same, empty⟩ := ih _ (by
        change (((s.set b _).ends (!b)).sent.length - ((s.set b _).ends b).got.length) < k
        rw [self, other, handed message.length (Int.le_refl _), List.length_append, List.length_singleton]
        omega) (run.reaches reaches) rfl
      exact ⟨s', reaches.trans later, same.trans other, empty⟩

/-- An end without a complete message has room for the next segment. -/
theorem Run.room (run : Run s) (b : Bool) (drained : ikcpPeeksize (s.ends b).kcp < 0) :
    (s.ends b).kcp.rcvQueue.length < ikcpWndRcv := by
  obtain ⟨_, _, _, _, _, -, back⟩ := run.paired b
  exact back.delivered.few back.own back.link.receiver.queued drained

/-! ## Data that are missing -/

/-- What the other end waits for is still in `snd_buf`. -/
theorem Run.waiting (run : Run s) (b : Bool) (room : (s.ends (!b)).kcp.rcvQueue.length < ikcpWndRcv)
    (less : (s.ends (!b)).taken < (s.ends b).log.length) :
    ∃ seg ∈ (s.ends b).kcp.sndBuf, seg.cmd = ikcpCmdPush ∧ seg.sn = UInt32.ofNat (s.ends (!b)).taken := by
  obtain ⟨_, _, _, _, _, there, -⟩ := run.paired b
  rcases there.link.kept _ less with waits | before | held
  · obtain ⟨seg, inside, number, -, push, -⟩ := there.link.sender.nums.exists_item waits
    exact ⟨seg, inside, push, number⟩
  · exact absurd before (Nat.lt_irrefl _)
  · exact absurd held (there.link.idle room)

theorem received_sendSegment {kcp : Ikcpcb} {seg : Ikcpseg} (push : seg.cmd = ikcpCmdPush) :
    (sendSegment kcp seg).received.cmd = ikcpCmdPush := by
  change (sendSegment kcp seg).cmd.toUInt8.toUInt32 = ikcpCmdPush
  rw [(sendSegment_alike kcp seg).cmd, push]
  decide

/-- The other end gets what it waits for. -/
theorem Run.takes (run : Run s) (b : Bool) (room : (s.ends (!b)).kcp.rcvQueue.length < ikcpWndRcv)
    (less : (s.ends (!b)).taken < (s.ends b).log.length) :
    ∃ s', Reaches s s' ∧ (s.ends (!b)).taken < (s'.ends (!b)).taken := by
  obtain ⟨seg, inside, push, number⟩ := run.waiting b room less
  obtain ⟨tsFlush, -, hears⟩ := run.talk b seg.resendts
  have due := @mem_flushSegments_due ((s.ends b).tick seg.resendts tsFlush).kcp seg inside rfl
  obtain ⟨s', segs, reaches, -, sent, -, heard⟩ := hears _ due
  have alike := sendSegment_alike (prepareFlush ((s.ends b).tick seg.resendts tsFlush).kcp) seg
  have taken := (heard.data _ sent (received_sendSegment push) _ (alike.sn.trans number) (Nat.le_refl _) (Nat.le_add_right _ _)).2
  exact ⟨s', reaches, taken rfl room⟩

/-- Whatever has a number and was not taken can be taken. -/
theorem Run.takes_more (run : Run s) (b : Bool) (less : (s.ends (!b)).taken < (s.ends b).log.length) :
    ∃ s', Reaches s s' ∧ (s.ends (!b)).taken < (s'.ends (!b)).taken := by
  obtain ⟨s₁, drains, same, drained⟩ := run.drain (!b)
  rw [Bool.not_not] at same
  have run₁ := run.reaches drains
  have before := (drains.went (!b)).taken
  by_cases more : (s.ends (!b)).taken < (s₁.ends (!b)).taken
  · exact ⟨s₁, drains, more⟩
  · have still : (s₁.ends (!b)).taken = (s.ends (!b)).taken := by omega
    obtain ⟨s', reaches, taken⟩ := run₁.takes b (run₁.room (!b) drained) (by rwa [same, still])
    exact ⟨s', drains.trans reaches, by rwa [← still]⟩

/-! ## Data that wait for numbers -/

theorem emit_grows {e : Endpoint} {kcp' : Ikcpcb} (output : List (List UInt8))
    (fewer : kcp'.sndQueue.length < e.kcp.sndQueue.length) : e.log.length < (e.emit kcp' output).1.log.length := by
  unfold Endpoint.emit
  dsimp only
  rw [List.length_append, List.length_map, List.length_take]
  omega

theorem emit_same {e : Endpoint} {kcp' : Ikcpcb} (output : List (List UInt8)) (queue : kcp'.sndQueue = e.kcp.sndQueue) :
    (e.emit kcp' output).1.log = e.log := by
  unfold Endpoint.emit
  rw [queue, Nat.sub_self, List.take_zero]
  exact List.append_nil _

/-- A flush numbers segments, or it leaves the queue and the buffer as long as they were. -/
theorem flushed_cases {e e' : Endpoint} {current tsFlush : UInt32}
    (flushed : e' = (e.tick current tsFlush).flush.1) :
    (e.log.length < e'.log.length ∨
      e'.log = e.log ∧ e'.kcp.sndQueue = e.kcp.sndQueue ∧ e'.kcp.sndBuf.length = e.kcp.sndBuf.length) ∧
    e'.kcp.rmtWnd = e.kcp.rmtWnd := by
  obtain ⟨which, rmtWnd, -⟩ := @flush_cases (e.tick current tsFlush).kcp headerSize rfl
  unfold Endpoint.flush at flushed
  generalize ikcpFlush headerSize (e.tick current tsFlush).kcp = result at flushed which rmtWnd
  rw [flushed]
  exact ⟨which.imp (emit_grows result.2) fun same => ⟨emit_same result.2 same.1, same⟩, rmtWnd⟩

/-- What is in `snd_buf` carries a number of the log. -/
theorem Run.number (run : Run s) (b : Bool) {seg : Ikcpseg} (member : seg ∈ (s.ends b).kcp.sndBuf) :
    ∃ n, seg.sn = UInt32.ofNat n ∧ seg.cmd = ikcpCmdPush ∧ n < (s.ends b).log.length ∧ (s.ends b).log.length ≤ n + 65535 := by
  obtain ⟨_, nsx, _, _, _, there, -⟩ := run.paired b
  obtain ⟨n, inside, number, -, push, -⟩ := there.link.sender.nums.exists_number member
  have window := there.link.sender.window
  have first : nsx.headD (s.ends b).log.length ≤ n := headD_le_of_mem there.link.sender.sorted inside
  exact ⟨n, number, push, there.link.sender.below n inside, by omega⟩

/-- The other end has something to tell, and nothing else has changed; or more segments have numbers. -/
def Moved (s s' : Session) (b : Bool) : Prop :=
  (s.ends b).log.length < (s'.ends b).log.length ∨
    Asked (s'.ends (!b)).kcp ∧ (s'.ends (!b)).kcp.rcvQueue = (s.ends (!b)).kcp.rcvQueue ∧ (s'.ends b).log = (s.ends b).log ∧
      (s'.ends b).kcp.sndQueue = (s.ends b).kcp.sndQueue

theorem Run.taken_le (run : Run s) (b : Bool) : (s.ends (!b)).taken ≤ (s.ends b).log.length := by
  obtain ⟨_, _, _, _, _, there, -⟩ := run.paired b
  exact there.link.takenLe

/-- Something that makes the other end answer is heard. -/
theorem Run.moves (run : Run s) {b : Bool} (all : (s.ends (!b)).taken = (s.ends b).log.length) (reaches : Reaches s s')
    {current tsFlush : UInt32} (flushed : s'.ends b = ((s.ends b).tick current tsFlush).flush.1) {segs : List Ikcpseg}
    (heard : Heard (s.ends (!b)) segs (s'.ends (!b))) (asked : Asked (s'.ends (!b)).kcp) : Moved s s' b := by
  obtain ⟨more | ⟨log, queue, -⟩, -⟩ := flushed_cases flushed
  · exact .inl more
  · have high := (run.reaches reaches).taken_le b
    rw [log] at high
    exact .inr ⟨asked, heard.still (Nat.le_antisymm (by omega) heard.taken), log, queue⟩

/-- Data that were not acknowledged are sent again. -/
theorem Run.resends (run : Run s) (b : Bool) (all : (s.ends (!b)).taken = (s.ends b).log.length)
    (some : (s.ends b).kcp.sndBuf ≠ []) : ∃ s', Reaches s s' ∧ Moved s s' b := by
  obtain ⟨seg, inside⟩ := List.exists_mem_of_ne_nil _ some
  obtain ⟨n, number, push, low, high⟩ := run.number b inside
  obtain ⟨tsFlush, -, hears⟩ := run.talk b seg.resendts
  have due := @mem_flushSegments_due ((s.ends b).tick seg.resendts tsFlush).kcp seg inside rfl
  obtain ⟨s', segs, reaches, sender, sent, -, heard⟩ := hears _ due
  have alike := sendSegment_alike (prepareFlush ((s.ends b).tick seg.resendts tsFlush).kcp) seg
  have asked := (heard.data _ sent (received_sendSegment push) n (alike.sn.trans number) (by omega) (by omega)).1
  exact ⟨s', reaches, run.moves all reaches sender heard asked⟩

/-- A closed window is asked for. -/
theorem Run.probes (run : Run s) (b : Bool) (all : (s.ends (!b)).taken = (s.ends b).log.length)
    (closed : (s.ends b).kcp.rmtWnd = 0) (waits : (s.ends b).kcp.probeWait ≠ 0) : ∃ s', Reaches s s' ∧ Moved s s' b := by
  obtain ⟨tsFlush, -, hears⟩ := run.talk b (s.ends b).kcp.tsProbe
  obtain ⟨seg, asks, wask⟩ := @mem_flushSegments_wask ((s.ends b).tick (s.ends b).kcp.tsProbe tsFlush).kcp closed waits rfl
  obtain ⟨s', segs, reaches, sender, sent, -, heard⟩ := hears seg asks
  have asked : Asked (s'.ends (!b)).kcp := by
    rw [heard.kcp]
    exact asked_inputDatagram sent wask
  exact ⟨s', reaches, run.moves all reaches sender heard asked⟩

/-- Where no number can be given the other end is made to answer. -/
theorem Run.asks (run : Run s) (b : Bool) (all : (s.ends (!b)).taken = (s.ends b).log.length)
    (stuck : (s.ends b).kcp.sndBuf ≠ [] ∨ (s.ends b).kcp.rmtWnd = 0) : ∃ s', Reaches s s' ∧ Moved s s' b := by
  rcases stuck with some | closed
  · exact run.resends b all some
  · by_cases waits : (s.ends b).kcp.probeWait = 0
    · -- a first flush sets the time of the probe
      obtain ⟨tsFlush, ⟨s₁, first, sender, receiver⟩, -⟩ := run.talk b 0
      obtain ⟨more | ⟨log, queue, -⟩, rmtWnd⟩ := flushed_cases sender
      · exact ⟨s₁, first, .inl more⟩
      · have waits : (s₁.ends b).kcp.probeWait ≠ 0 := by
          rw [sender]
          exact @flush_probeWait ((s.ends b).tick 0 tsFlush).kcp headerSize rfl closed waits
        obtain ⟨s', second, moved⟩ := (run.reaches first).probes b (by rw [receiver, log, all]) (rmtWnd.trans closed) waits
        refine ⟨s', first.trans second, ?_⟩
        unfold Moved at moved ⊢
        rwa [receiver, log, queue] at moved
    · exact run.probes b all closed waits

/-- What is left of the window does not look closed in a header, which has 16 bits for it. -/
theorem wnd_received {seg : Ikcpseg} (kcp : Ikcpcb) (told : seg.wnd = ikcpWndUnused kcp) (few : kcp.nrcvQue.toNat < ikcpWndRcv)
    (wide : ikcpWndRcv ≤ kcp.rcvWnd.toNat % 65536) : seg.received.wnd ≠ 0 := by
  intro none
  have value := congrArg UInt32.toNat none
  have room : kcp.nrcvQue.toNat < kcp.rcvWnd.toNat := by omega
  change seg.wnd.toUInt16.toUInt32.toNat = 0 at value
  rw [told, ikcpWndUnused, if_pos (UInt32.lt_iff_toNat_lt.mpr room), UInt16.toNat_toUInt32, UInt32.toNat_toUInt16,
    UInt32.toNat_sub_of_le _ _ (UInt32.le_iff_toNat_le.mpr (Nat.le_of_lt room))] at value
  omega

/-- The answer acknowledges everything, and opens the window. -/
theorem Run.answers (run : Run s) (b : Bool) (asked : Asked (s.ends (!b)).kcp) (all : (s.ends (!b)).taken = (s.ends b).log.length)
    (room : (s.ends (!b)).kcp.rcvQueue.length < ikcpWndRcv) (wide : ikcpWndRcv ≤ (s.ends (!b)).kcp.rcvWnd.toNat % 65536) :
    ∃ s', Reaches s s' ∧ (s'.ends b).log = (s.ends b).log ∧ (s'.ends b).kcp.sndQueue = (s.ends b).kcp.sndQueue ∧
      (s'.ends b).kcp.sndBuf = [] ∧ (s'.ends b).kcp.rmtWnd ≠ 0 := by
  obtain ⟨_, _, _, _, _, there, back⟩ := run.paired b
  obtain ⟨tsFlush, -, hears⟩ := run.talk (!b) 0
  have something : flushSegments ((s.ends (!b)).tick 0 tsFlush).kcp ≠ [] := flushSegments_ne_nil asked
  obtain ⟨seg, inside⟩ := List.exists_mem_of_ne_nil _ something
  obtain ⟨s', segs, reaches, -, sent, each, heard⟩ := hears seg inside
  rw [Bool.not_not] at heard
  have least := back.own.least
  have queued := there.link.receiver.queued
  have cleared := @inputDatagram_clears (s.ends b).kcp segs (List.ne_nil_of_mem sent)
    (fun seg member unacked there' => by
      obtain ⟨n, number, -, low, high⟩ := run.number b there'
      have una : seg.una = UInt32.ofNat (s.ends b).log.length :=
        (mem_flushSegments_fields (each seg member)).1.trans (by rw [← all]; exact there.link.receiver.nxt)
      rw [una, number, itimediff, Lib.serialDiff_ofNat (by omega) (by omega)]
      omega)
    (fun seg member => by
      refine wnd_received (s.ends (!b)).kcp (mem_flushSegments_fields (each seg member)).2 ?_ wide
      omega)
  refine ⟨s', reaches, heard.log, heard.config.sndQueue, ?_, ?_⟩
  · rw [heard.kcp]
    exact cleared.1
  · rw [heard.kcp]
    exact cleared.2

theorem imin_ne_zero {a b : UInt32} (first : a ≠ 0) (second : b ≠ 0) : imin a b ≠ 0 := by
  unfold imin
  split
  · exact first
  · exact second

theorem windowSize_ne_zero {kcp : Ikcpcb} (sndWnd : kcp.sndWnd ≠ 0) (rmtWnd : kcp.rmtWnd ≠ 0) (cwnd : kcp.cwnd ≠ 0) :
    windowSize kcp ≠ 0 := by
  have window := imin_ne_zero sndWnd rmtWnd
  unfold windowSize
  dsimp only
  split
  · exact imin_ne_zero cwnd window
  · exact window

/-- With nothing on its way and an open window, the second flush gives numbers at the latest. -/
theorem Run.numbers (run : Run s) (b : Bool) (none : (s.ends b).kcp.sndBuf = []) (opened : (s.ends b).kcp.rmtWnd ≠ 0)
    (some : (s.ends b).kcp.sndQueue ≠ []) : ∃ s', Reaches s s' ∧ (s.ends b).log.length < (s'.ends b).log.length := by
  obtain ⟨tsFlush, ⟨s₁, first, sender, -⟩, -⟩ := run.talk b 0
  obtain ⟨more | ⟨log, queue, buffer⟩, rmtWnd⟩ := flushed_cases sender
  · exact ⟨s₁, first, more⟩
  · have run₁ := run.reaches first
    have cwnd : (s₁.ends b).kcp.cwnd ≠ 0 := by
      rw [sender]
      exact @flush_cwnd ((s.ends b).tick 0 tsFlush).kcp headerSize rfl
    obtain ⟨_, nsx, _, _, _, there, -⟩ := run₁.paired b
    obtain ⟨tsFlush', ⟨s', second, sender', -⟩, -⟩ := run₁.talk b 0
    refine ⟨s', first.trans second, ?_⟩
    have empty : nsx = [] := by
      have length := there.link.sender.nums.length_eq
      rw [buffer, none, List.length_nil] at length
      exact List.length_eq_zero_iff.mp length.symm
    have idle : (s₁.ends b).kcp.sndUna = (s₁.ends b).kcp.sndNxt := by
      rw [there.link.sender.una, there.link.sender.nxtEq, empty]
      rfl
    have window : windowSize ((s₁.ends b).tick 0 tsFlush').kcp ≠ 0 :=
      windowSize_ne_zero (run₁.sndWnd b) (rmtWnd ▸ opened) cwnd
    have small : (windowSize ((s₁.ends b).tick 0 tsFlush').kcp).toNat ≤ 65535 :=
      Nat.le_trans (windowSize_le _) there.own.rmtWnd
    have fewer := @flush_numbers ((s₁.ends b).tick 0 tsFlush').kcp headerSize rfl idle (queue ▸ some) window small
    rw [← log, sender']
    exact emit_grows _ fewer

/-- When everything that has a number was taken, more gets numbers. -/
theorem Run.grows (run : Run s) (b : Bool) (all : (s.ends (!b)).taken = (s.ends b).log.length)
    (room : (s.ends (!b)).kcp.rcvQueue.length < ikcpWndRcv) (wide : ikcpWndRcv ≤ (s.ends (!b)).kcp.rcvWnd.toNat % 65536)
    (some : (s.ends b).kcp.sndQueue ≠ []) : ∃ s', Reaches s s' ∧ (s.ends b).log.length < (s'.ends b).log.length := by
  by_cases stuck : (s.ends b).kcp.sndBuf ≠ [] ∨ (s.ends b).kcp.rmtWnd = 0
  · obtain ⟨s₁, asks, more | ⟨asked, queue, log, sndQueue⟩⟩ := run.asks b all stuck
    · exact ⟨s₁, asks, more⟩
    · have run₁ := run.reaches asks
      have went := asks.went (!b)
      have low := went.taken
      have high := run₁.taken_le b
      rw [log] at high
      obtain ⟨s₂, answers, log₂, sndQueue₂, none, opened⟩ := run₁.answers b asked (by rw [log]; omega) (queue ▸ room)
        (went.rcvWnd ▸ wide)
      obtain ⟨s', numbers, more⟩ := (run₁.reaches answers).numbers b none opened (by rwa [sndQueue₂, sndQueue])
      rw [log₂, log] at more
      exact ⟨s', (asks.trans answers).trans numbers, more⟩
  · obtain ⟨none, opened⟩ := not_or.mp stuck
    exact run.numbers b (not_not.mp none) opened some

/-! ## Everything is handed over -/

/-- As long as not everything was taken, more can be. -/
theorem Run.goes_on (run : Run s) (b : Bool) (wide : ikcpWndRcv ≤ (s.ends (!b)).kcp.rcvWnd.toNat % 65536)
    (left : (s.ends (!b)).taken < (s.ends b).log.length + (s.ends b).kcp.sndQueue.length) :
    ∃ s', Reaches s s' ∧ (s.ends (!b)).taken < (s'.ends (!b)).taken := by
  obtain ⟨s₁, drains, same, drained⟩ := run.drain (!b)
  rw [Bool.not_not] at same
  have run₁ := run.reaches drains
  have went₁ := drains.went (!b)
  have before₁ := went₁.taken
  by_cases less : (s₁.ends (!b)).taken < (s₁.ends b).log.length
  · obtain ⟨s', takes, more⟩ := run₁.takes_more b less
    exact ⟨s', drains.trans takes, by omega⟩
  · have high := run₁.taken_le b
    have all : (s₁.ends (!b)).taken = (s₁.ends b).log.length := by omega
    by_cases done : (s.ends (!b)).taken < (s₁.ends (!b)).taken
    · exact ⟨s₁, drains, done⟩
    · have some : (s₁.ends b).kcp.sndQueue ≠ [] := by
        intro none
        rw [same] at none all
        rw [none, List.length_nil] at left
        omega
      obtain ⟨s₂, grows, more⟩ := run₁.grows b all (run₁.room (!b) drained) (went₁.rcvWnd ▸ wide) some
      have before₂ := (grows.went (!b)).taken
      by_cases done₂ : (s.ends (!b)).taken < (s₂.ends (!b)).taken
      · exact ⟨s₂, drains.trans grows, done₂⟩
      · obtain ⟨s', takes, taken⟩ := (run₁.reaches grows).takes_more b (by omega)
        exact ⟨s', (drains.trans grows).trans takes, by omega⟩

/-- How many segments an end has been given. -/
theorem Run.total (run : Run s) (b : Bool) : (s.ends b).log.length + (s.ends b).kcp.sndQueue.length =
    ((s.ends b).sent.flatMap (messagePayloads (s.ends b).kcp.mss.toNat)).length := by
  obtain ⟨_, _, _, _, _, there, -⟩ := run.paired b
  rw [← there.own.messages, List.length_append, List.length_map]

theorem Run.takes_all (run : Run s) (b : Bool) (wide : ikcpWndRcv ≤ (s.ends (!b)).kcp.rcvWnd.toNat % 65536) : ∃ s', Reaches s s' ∧
    (s'.ends (!b)).taken = (s'.ends b).log.length ∧ (s'.ends b).kcp.sndQueue = [] := by
  generalize missing : (s.ends b).log.length + (s.ends b).kcp.sndQueue.length - (s.ends (!b)).taken = k
  induction k using Nat.strongRecOn generalizing s with
  | ind k ih =>
    have high := run.taken_le b
    by_cases left : (s.ends (!b)).taken < (s.ends b).log.length + (s.ends b).kcp.sndQueue.length
    · obtain ⟨s₁, first, more⟩ := run.goes_on b wide left
      have run₁ := run.reaches first
      have same : (s₁.ends b).log.length + (s₁.ends b).kcp.sndQueue.length =
          (s.ends b).log.length + (s.ends b).kcp.sndQueue.length := by
        rw [run₁.total, run.total, (first.went b).sent, (first.went b).mss]
      obtain ⟨s', rest, done⟩ := ih _ (by omega) run₁ ((first.went (!b)).rcvWnd ▸ wide) rfl
      exact ⟨s', first.trans rest, done⟩
    · exact ⟨s, .refl, by omega, List.length_eq_zero_iff.mp (by omega)⟩

/-- One direction can be completed. -/
theorem Run.hands_over (run : Run s) (b : Bool) (wide : ikcpWndRcv ≤ (s.ends b).kcp.rcvWnd.toNat % 65536) :
    ∃ s', Reaches s s' ∧ (s'.ends b).got = (s'.ends (!b)).sent := by
  obtain ⟨s₁, takes, all, queue⟩ := run.takes_all (!b) (by rwa [Bool.not_not])
  rw [Bool.not_not] at all
  obtain ⟨s', drains, same, drained⟩ := (run.reaches takes).drain b
  have run' := run.reaches (takes.trans drains)
  refine ⟨s', takes.trans drains, ?_⟩
  obtain ⟨_, _, _, _, _, -, back⟩ := run'.paired b
  have low := (drains.went b).taken
  have high := back.link.takenLe
  exact back.delivered.all back.own back.link.receiver.queued (by rw [same, queue]) (by rw [same] at high ⊢; omega) drained

/-- From every state that a session can come to, there is a way on that hands over everything that both ends have sent, if what a
header can tell of the receive windows is at least the least window. -/
theorem Run.completes (run : Run s) (wide : ∀ b, ikcpWndRcv ≤ (s.ends b).kcp.rcvWnd.toNat % 65536) :
    ∃ s', Reaches s s' ∧ ∀ b, (s'.ends b).sent = (s.ends b).sent ∧ (s'.ends b).got = (s.ends (!b)).sent := by
  obtain ⟨s₁, first, handed⟩ := run.hands_over true (wide true)
  have run₁ := run.reaches first
  obtain ⟨s', second, handed'⟩ := run₁.hands_over false ((first.went false).rcvWnd ▸ wide false)
  have reaches : Reaches s s' := first.trans second
  refine ⟨s', reaches, fun b => ⟨(reaches.went b).sent, ?_⟩⟩
  rw [← (reaches.went (!b)).sent]
  cases b with
  | false => exact handed'
  | true =>
    -- what was handed over first stays handed over
    have more := (second.went true).got
    rw [handed, ← (second.went (!true)).sent] at more
    exact ((run.reaches reaches).got_isPrefix true).eq_of_length_le more.length_le

theorem completes_exchange : ∃ s', Reaches exchange s' ∧ ∀ b, (s'.ends b).sent = (exchange.ends b).sent ∧
    (s'.ends b).got = (exchange.ends (!b)).sent :=
  exchange_run.completes (by decide)

end Session

end Xxlib.Kcp
