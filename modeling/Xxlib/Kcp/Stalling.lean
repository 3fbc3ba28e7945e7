import Xxlib.Kcp.Completion

/-! Receive windows that a header cannot tell (`test_uv_3/ikcp.h`).

`ikcp_wndsize` takes any window, and a header has 16 bits for what is left of it. A window that is a multiple of 65536 looks
closed while nothing is queued.
-/

set_option autoImplicit false

namespace Xxlib.Kcp

open Session (windowLimit Fresh)

/-- Every segment of the datagram says that there is no room. -/
def Closes (conv : Guid) (d : Datagram) : Prop := ∃ segs : List Ikcpseg, segs ≠ [] ∧ d.bytes = segs.flatMap wire ∧
  (segs.flatMap wire).length < 2 ^ 31 ∧ ∀ seg ∈ segs, WellFormed conv seg ∧ seg.received.wnd = 0

/-- The end has heard nothing yet, or that there is no room. -/
structure Held (e : Endpoint) : Prop where
  few : e.log.length ≤ ikcpWndRcv
  window : e.kcp.rmtWnd = 0 ∨ e.kcp.rmtWnd.toNat = ikcpWndRcv ∧ e.kcp.sndUna = 0

section
variable {conv : Guid} {x y x' : Endpoint} {wx wy : List Datagram} {nsx hsy : List Nat} {d : Datagram} {kcp : Ikcpcb}
  {queue numbered rest : List Ikcpseg} {seg : Ikcpseg} {segs : List Ikcpseg} {maxack : Option UInt32}

/-- The end has neither heard anything nor given a number. -/
structure Unheard (e e' : Endpoint) : Prop where
  log : e'.log = e.log
  rmtWnd : e'.kcp.rmtWnd = e.kcp.rmtWnd
  sndUna : e'.kcp.sndUna = e.kcp.sndUna

theorem Held.unheard (held : Held x) (same : Unheard x x') : Held x' := by
  refine ⟨?_, ?_⟩
  · rw [same.log]
    exact held.few
  · rw [same.rmtWnd, same.sndUna]
    exact held.window

theorem send_unheard (own : Local conv x) (buffer : List UInt8) : Unheard x (x.send buffer) := by
  unfold Endpoint.send
  rcases send_eq own.stream buffer own.some with ⟨-, refused⟩ | ⟨-, _, -, queued⟩
  · rw [refused]
    exact ⟨rfl, rfl, rfl⟩
  · rw [queued]
    exact ⟨rfl, rfl, rfl⟩

theorem recv_unheard (x : Endpoint) (len : Int) : Unheard x (x.recv len) := by
  obtain ⟨_, _, _, _, _, _, result⟩ := recv_only x.kcp len
  have rmtWnd : (ikcpRecv x.kcp len).2.2.rmtWnd = x.kcp.rmtWnd := by rw [result]
  have sndUna : (ikcpRecv x.kcp len).2.2.sndUna = x.kcp.sndUna := by rw [result]
  unfold Endpoint.recv
  generalize ikcpRecv x.kcp len = received at rmtWnd sndUna
  exact ⟨rfl, rmtWnd, sndUna⟩

/-- Numbers are given below the end of the window only. -/
theorem Filled.limit {cwnd : UInt32} (filled : Filled cwnd kcp queue numbered rest) {first nxt : Nat}
    (sndNxt : kcp.sndNxt = UInt32.ofNat nxt) (sndUna : kcp.sndUna = UInt32.ofNat first) (low : first ≤ nxt)
    (high : nxt ≤ first + 65535) (small : cwnd.toNat ≤ 65535) : nxt + numbered.length ≤ max nxt (first + cwnd.toNat) := by
  have window := filled.window sndNxt sndUna low high small
  rcases Nat.eq_zero_or_pos numbered.length with none | some
  · omega
  · have behind := filled.inWindow (numbered.length - 1) (by omega)
    have limit : kcp.sndUna + cwnd = UInt32.ofNat (first + cwnd.toNat) := by
      rw [UInt32.ofNat_add, sndUna, UInt32.ofNat_toNat]
    rw [limit, sndNxt, ← UInt32.ofNat_add, itimediff, Lib.serialDiff_ofNat (by omega) (by omega)] at behind
    omega

/-- A flush of such an end gives no number beyond the first window. -/
theorem Held.flush (held : Held x) (there : Link x y nsx hsy) (updated : x.kcp.updated = true) : Held x.flush.1 := by
  obtain ⟨numbered, rest, _, _, _, _, _, result, filled, -⟩ := @flush_eq headerSize x.kcp updated
  have few := held.few
  have first := headD_le there.sender.below
  have window := there.sender.window
  have small := windowSize_le x.kcp
  have limit := Session.windowLimit_eq
  have least : ikcpWndRcv = 128 := rfl
  have bound : x.log.length + numbered.length ≤ ikcpWndRcv := by
    rcases held.window with closed | ⟨opened, start⟩
    · rw [closed, UInt32.toNat_zero] at small
      have most := filled.limit there.sender.nxtEq there.sender.una first window (by omega)
      omega
    · have most := filled.limit there.sender.nxtEq there.sender.una first window (by omega)
      have none : nsx.headD x.log.length = 0 :=
        Lib.eq_of_ofNat_eq (by omega) (by omega) (there.sender.una.symm.trans start)
      omega
  have queue : (ikcpFlush headerSize x.kcp).1.sndQueue = rest := by rw [result]
  have emitted := @emit_eq x numbered rest (ikcpFlush headerSize x.kcp).1 (ikcpFlush headerSize x.kcp).2 filled.split queue
  unfold Endpoint.flush
  rw [emitted, result]
  refine ⟨?_, held.window⟩
  dsimp only
  rwa [length_logged]

theorem inputSegments_rmtWnd {wnd : UInt32} (some : segs ≠ []) (all : ∀ seg ∈ segs, seg.wnd = wnd) :
    (inputSegments kcp maxack segs).1.rmtWnd = wnd := by
  induction segs generalizing kcp maxack with
  | nil => exact absurd rfl some
  | cons seg segs ih =>
    rw [inputSegments_cons]
    by_cases last : segs = []
    · rw [last]
      change (accept (acknowledge kcp seg) seg).rmtWnd = wnd
      rw [(accept_config _ _).2.2, (acknowledge_config kcp seg).2.2.2]
      exact all seg List.mem_cons_self
    · exact ih last fun seg' member => all seg' (List.mem_cons_of_mem seg member)

/-- What such an end hears leaves it as it is. -/
theorem Held.input (held : Held x) (same : x.kcp.conv = conv) (closes : Closes conv d) : Held (x.input d.bytes) := by
  obtain ⟨segs, some, bytes, small, each⟩ := closes
  have returned : ikcpInput headerSize x.kcp d.bytes d.bytes.length = .returned 0 (inputDatagram x.kcp segs) := by
    rw [bytes]
    exact input_wire some (fun seg member => same ▸ (each seg member).1) small
  have closed : (inputDatagram x.kcp segs).rmtWnd = 0 := by
    obtain ⟨_, _, _, result, -⟩ := finishInput_eq x.kcp.sndUna (inputSegments x.kcp none (segs.map Ikcpseg.received)).1
      (inputSegments x.kcp none (segs.map Ikcpseg.received)).2
    unfold inputDatagram
    rw [result]
    refine inputSegments_rmtWnd (by simpa using some) fun seg member => ?_
    obtain ⟨sent, there, rfl⟩ := List.mem_map.mp member
    exact (each sent there).2
  unfold Endpoint.input
  rw [returned]
  exact ⟨held.few, .inl closed⟩

/-- What an end with such a window sends while its queue is empty. -/
theorem Paired.closes (paired : Paired conv x y wx wy) (hidden : x.kcp.rcvWnd.toNat % 65536 = 0) (empty : x.kcp.rcvQueue = []) :
    ∀ d ∈ x.flush.2, Closes conv d := by
  intro d member
  obtain ⟨_, _, _, _, there, back⟩ := paired
  by_cases updated : x.kcp.updated = true
  · obtain ⟨_, departed⟩ := there.link.flush back.link there.own updated
    obtain ⟨groups, packed, flat, carries⟩ := departed.groups
    obtain ⟨bytes, sent, rfl⟩ := List.mem_map.mp member
    obtain ⟨group, inside, rfl⟩ := List.mem_map.mp (packed ▸ sent)
    have carried := carries group inside _ member rfl
    refine ⟨group, carried.some, rfl, carried.small, fun seg there' => ⟨departed.own.conv ▸ (carried.each seg there').1, ?_⟩⟩
    have told := (mem_flushSegments_fields (flat ▸ List.mem_flatten.mpr ⟨group, inside, there'⟩)).2
    have none : x.kcp.nrcvQue = 0 := UInt32.toNat_inj.mp (back.link.receiver.queued.trans (by rw [empty]; rfl))
    have least := there.own.least
    rw [ikcpWndRcv] at least
    have room : x.kcp.nrcvQue < x.kcp.rcvWnd := UInt32.lt_iff_toNat_lt.mpr (by rw [none, UInt32.toNat_zero]; omega)
    change seg.wnd.toUInt16.toUInt32 = 0
    rw [told, ikcpWndUnused, if_pos room, none, UInt32.sub_zero]
    apply UInt32.toNat_inj.mp
    rw [UInt16.toNat_toUInt32, UInt32.toNat_toUInt16, UInt32.toNat_zero]
    exact hidden
  · have nothing : x.flush.2 = [] := by
      unfold Endpoint.flush ikcpFlush
      rw [if_neg updated]
      rfl
    rw [nothing] at member
    cases member

/-- Every message that was handed over has taken a number. -/
theorem Delivered.got_le (own : Local conv x) (delivered : Delivered x y) : y.got.length ≤ x.log.length := by
  have fragments (messages : List (List UInt8)) :
      messages.length ≤ (messages.flatMap (messagePayloads x.kcp.mss.toNat)).length := by
    induction messages with
    | nil => exact Nat.le_refl 0
    | cons message messages ih =>
      have some := fragmentCount_pos own.some message.length
      rw [List.flatMap_cons, List.length_append, List.length_cons, messagePayloads, length_payloads]
      omega
  obtain ⟨k, -, got, queue⟩ := delivered
  have numbered := congrArg List.length queue
  rw [List.length_append, List.length_take] at numbered
  have handed := fragments (x.sent.take k)
  rw [got]
  omega

/-- Such a window is taken as it is. -/
theorem wndsize_whole (kcp : Ikcpcb) (sndwnd : Int32) {rcvwnd : Int32} (positive : 0 < rcvwnd)
    (hidden : rcvwnd.toInt % 65536 = 0) : (ikcpWndsize kcp sndwnd rcvwnd).rcvWnd.toNat % 65536 = 0 := by
  have above := Int32.lt_iff_toInt_lt.mp positive
  rw [Int32.toInt_zero] at above
  have value : rcvwnd.toUInt32.toNat = rcvwnd.toInt.toNat := Int32.toNat_toUInt32_of_le (Int32.le_of_lt positive)
  have large : UInt32.ofNat ikcpWndRcv ≤ rcvwnd.toUInt32 := by
    rw [UInt32.le_iff_toNat_le, value]
    exact Nat.le_trans (by decide : (UInt32.ofNat ikcpWndRcv).toNat ≤ 128) (by omega)
  unfold ikcpWndsize
  rw [if_pos positive, imax, if_pos large, value]
  omega

end

/-- What an end does that hands over everything before it sends, and keeps its window. -/
def Prompt (e : Endpoint) : Act → Prop
  | .update _ | .flush => e.kcp.rcvQueue = []
  | .wndsize .. => False
  | .send _ | .recv _ | .deliver _ | .nodelay .. | .minrto _ => True

instance (e : Endpoint) : (act : Act) → Decidable (Prompt e act)
  | .update _ | .flush => inferInstanceAs (Decidable (e.kcp.rcvQueue = []))
  | .wndsize .. => isFalse id
  | .send _ | .recv _ | .deliver _ | .nodelay .. | .minrto _ => isTrue trivial

namespace Session

variable {s : Session} {b : Bool} {conv : Guid}

/-- Runs in which `b` asks at once for a window that no header can tell. -/
inductive Muted (b : Bool) : Session → Prop where
  | start (conv : Guid) (mtu : Bool → Int32) (sndwnd rcvwnd : Int32) (positive : 0 < rcvwnd) (hidden : rcvwnd.toInt % 65536 = 0)
      (most : rcvwnd.toInt ≤ windowLimit) : Muted b ((start conv mtu).step b (.wndsize sndwnd rcvwnd))
  | step {s : Session} (c : Bool) (act : Act) (before : Muted b s) (allowed : s.Allowed c act)
      (prompt : c = b → Prompt (s.ends b) act) : Muted b (s.step c act)

/-- The other end has nothing to go on with. -/
structure Stuck (conv : Guid) (b : Bool) (s : Session) : Prop where
  inv : Inv conv s
  hidden : (s.ends b).kcp.rcvWnd.toNat % 65536 = 0
  closes : ∀ d ∈ s.wire b, Closes conv d
  held : Held (s.ends (!b))

theorem step_other (s : Session) (b : Bool) (act : Act) :
    (s.step b act).ends (!b) = s.ends (!b) ∧ (s.step b act).wire (!b) = s.wire (!b) := by
  have other : (!b) ≠ b := by cases b <;> decide
  have set (e : Endpoint) : (s.set b e).ends (!b) = s.ends (!b) ∧ (s.set b e).wire (!b) = s.wire (!b) :=
    ⟨(ends_set e).2, rfl⟩
  have put (result : Endpoint × List Datagram) :
      (s.put b result).ends (!b) = s.ends (!b) ∧ (s.put b result).wire (!b) = s.wire (!b) :=
    ⟨(ends_put result).2, Function.update_of_ne other ..⟩
  cases act with
  | send | recv | wndsize | nodelay | minrto => exact set _
  | update | flush => exact put _
  | deliver i =>
    unfold step
    dsimp only
    split
    · exact set _
    · exact ⟨rfl, rfl⟩

/-- The other end does anything. -/
theorem Stuck.held_step (stuck : Stuck conv b s) (act : Act) : Held ((s.step (!b) act).ends (!b)) := by
  obtain ⟨nsx, _, _, hsy, there, -⟩ := stuck.inv.paired (!b)
  have held := stuck.held
  have set (e : Endpoint) (after : Held e) : Held ((s.set (!b) e).ends (!b)) := (ends_set e).1.symm ▸ after
  have put (result : Endpoint × List Datagram) (after : Held result.1) : Held ((s.put (!b) result).ends (!b)) :=
    (ends_put result).1.symm ▸ after
  cases act with
  | send buffer => exact set _ (held.unheard (send_unheard there.own buffer))
  | recv len => exact set _ (held.unheard (recv_unheard _ len))
  | deliver i =>
    unfold step
    dsimp only
    split
    · rename_i d found
      rw [Bool.not_not] at found
      exact set _ (held.input there.own.conv (stuck.closes d (List.mem_of_getElem? found)))
    · exact held
  | update current =>
    refine put _ ?_
    obtain ⟨tsFlush, result⟩ := update_cases (s.ends (!b)) current
    have ticked : Held ((s.ends (!b)).tick current tsFlush) := held.unheard ⟨rfl, rfl, rfl⟩
    have linked : Link ((s.ends (!b)).tick current tsFlush) (s.ends (!(!b))) nsx hsy :=
      there.link.congr ⟨rfl, rfl, rfl, rfl, rfl⟩ rfl ⟨rfl, rfl, rfl, rfl, rfl⟩ rfl rfl rfl
    rcases result with idle | flushes
    · rw [idle]
      exact ticked
    · rw [flushes]
      exact ticked.flush linked rfl
  | flush =>
    refine put _ ?_
    by_cases updated : (s.ends (!b)).kcp.updated = true
    · exact held.flush there.link updated
    · have nothing : ikcpFlush headerSize (s.ends (!b)).kcp = ((s.ends (!b)).kcp, []) := if_neg updated
      unfold Endpoint.flush
      rw [nothing, emit_nothing rfl]
      exact held
  | wndsize sndwnd rcvwnd =>
    obtain ⟨_, _, result, -⟩ := wndsize_eq (s.ends (!b)).kcp sndwnd rcvwnd
    exact set _ (held.unheard (by rw [result]; exact ⟨rfl, rfl, rfl⟩))
  | nodelay nodelay interval resend nc =>
    obtain ⟨_, _, _, _, _, result, -⟩ := nodelay_eq (s.ends (!b)).kcp nodelay interval resend nc
    exact set _ (held.unheard (by rw [result]; exact ⟨rfl, rfl, rfl⟩))
  | minrto rxMinrto => exact set _ (held.unheard ⟨rfl, rfl, rfl⟩)

/-- `b` goes on. -/
theorem Stuck.hidden_step (stuck : Stuck conv b s) {act : Act} (prompt : Prompt (s.ends b) act) :
    ((s.step b act).ends b).kcp.rcvWnd = (s.ends b).kcp.rcvWnd ∧ ∀ d ∈ (s.step b act).wire b, Closes conv d := by
  have paired := stuck.inv.paired b
  obtain ⟨_, _, _, _, there, -⟩ := id paired
  have set (e : Endpoint) (same : e.kcp.rcvWnd = (s.ends b).kcp.rcvWnd) :
      ((s.set b e).ends b).kcp.rcvWnd = (s.ends b).kcp.rcvWnd ∧ ∀ d ∈ (s.set b e).wire b, Closes conv d :=
    ⟨(ends_set e).1.symm ▸ same, stuck.closes⟩
  have put (result : Endpoint × List Datagram) (same : result.1.kcp.rcvWnd = (s.ends b).kcp.rcvWnd)
      (new : ∀ d ∈ result.2, Closes conv d) :
      ((s.put b result).ends b).kcp.rcvWnd = (s.ends b).kcp.rcvWnd ∧ ∀ d ∈ (s.put b result).wire b, Closes conv d := by
    refine ⟨(ends_put result).1.symm ▸ same, fun d member => ?_⟩
    unfold Session.put at member
    dsimp only at member
    rw [Function.update_self, List.mem_append] at member
    exact member.elim (stuck.closes d) (new d)
  cases act with
  | send buffer =>
    refine set _ ?_
    unfold Endpoint.send
    rcases send_eq there.own.stream buffer there.own.some with ⟨-, refused⟩ | ⟨-, _, -, queued⟩
    · rw [refused]
    · rw [queued]
  | recv len => exact set _ (recv_went _ len).rcvWnd
  | deliver i =>
    unfold step
    dsimp only
    split
    · exact set _ (input_went _ _).rcvWnd
    · exact ⟨rfl, stuck.closes⟩
  | update current =>
    refine put _ (update_went _ current).rcvWnd ?_
    obtain ⟨tsFlush, idle | flushes⟩ := update_cases (s.ends b) current
    · rw [idle]
      rintro d ⟨⟩
    · have ticked : Paired conv ((s.ends b).tick current tsFlush) (s.ends (!b)) (s.wire b) (s.wire (!b)) :=
        paired.configure ⟨⟨rfl, rfl, rfl, rfl, rfl⟩, ⟨rfl, rfl, rfl, rfl, rfl⟩, rfl, rfl, rfl, rfl, rfl, rfl, rfl⟩
          there.own.least there.own.most
      rw [flushes]
      exact ticked.closes stuck.hidden prompt
  | flush => exact put _ (emit_went (flush_windows _) _).rcvWnd (paired.closes stuck.hidden prompt)
  | wndsize => cases prompt
  | nodelay nodelay interval resend nc =>
    refine set _ ?_
    obtain ⟨_, _, _, _, _, result, -⟩ := nodelay_eq (s.ends b).kcp nodelay interval resend nc
    rw [result]
  | minrto rxMinrto => exact set _ rfl

theorem Stuck.step (stuck : Stuck conv b s) {c : Bool} {act : Act} (allowed : s.Allowed c act)
    (prompt : c = b → Prompt (s.ends b) act) : Stuck conv b (s.step c act) := by
  have inv := stuck.inv.step c act allowed
  obtain ⟨ends, wires⟩ := step_other s c act
  by_cases same : c = b
  · subst same
    obtain ⟨rcvWnd, closes⟩ := stuck.hidden_step (prompt rfl)
    exact ⟨inv, by rw [rcvWnd]; exact stuck.hidden, closes, by rw [ends]; exact stuck.held⟩
  · obtain rfl : c = !b := by
      cases b <;> cases c <;> first | rfl | exact absurd rfl same
    rw [Bool.not_not] at ends wires
    exact ⟨inv, by rw [ends]; exact stuck.hidden, by rw [wires]; exact stuck.closes, stuck.held_step act⟩

theorem Muted.stuck (muted : Muted b s) : ∃ conv, Stuck conv b s := by
  induction muted with
  | start conv mtu sndwnd rcvwnd positive hidden most =>
    have inv := (inv_start conv mtu).step b (.wndsize sndwnd rcvwnd) most
    obtain ⟨ends, -⟩ := step_other (Session.start conv mtu) b (.wndsize sndwnd rcvwnd)
    obtain ⟨_, _, created, -⟩ := start_blank conv mtu (!b)
    refine ⟨conv, inv, ?_, ?_, ?_⟩
    · rw [Session.step, (ends_set _).1]
      exact wndsize_whole _ sndwnd positive hidden
    · rintro d ⟨⟩
    · rw [ends, created]
      exact ⟨Nat.zero_le _, .inr ⟨rfl, rfl⟩⟩
  | step c act _ allowed prompt ih =>
    obtain ⟨conv, stuck⟩ := ih
    exact ⟨conv, stuck.step allowed prompt⟩

/-- However much is sent, no more than the first window gets across. -/
theorem Muted.stalls (muted : Muted b s) : (s.ends (!b)).log.length ≤ ikcpWndRcv ∧ (s.ends b).got.length ≤ ikcpWndRcv := by
  obtain ⟨conv, stuck⟩ := muted.stuck
  obtain ⟨_, _, _, _, -, back⟩ := stuck.inv.paired b
  have few := stuck.held.few
  exact ⟨few, Nat.le_trans (back.delivered.got_le back.own) few⟩

/-- A message gets across and is answered. The next one waits. -/
def closing : Session :=
  ((start .zero fun _ => 50).step true (.wndsize 0 65536)).perform
    [(false, .nodelay 1 10 2 1), (false, .send [7]), (false, .update 0), (true, .deliver 0), (true, .recv 8), (true, .update 0),
      (false, .deliver 0), (false, .send [8]), (false, .update 10)]

theorem stalls_closing : ((closing.ends false).sent = [[7], [8]] ∧ (closing.ends false).log.length = 1) ∧
    (closing.ends false).log.length ≤ ikcpWndRcv ∧ (closing.ends true).got.length ≤ ikcpWndRcv := by
  have started : Muted true ((start .zero fun _ => 50).step true (.wndsize 0 65536)) :=
    .start _ _ _ _ (by decide) (by decide) (by decide)
  have first := ((started.step false (.nodelay 1 10 2 1) trivial nofun).step false (.send [7]) trivial nofun).step false
    (.update 0) trivial nofun
  have handed := (first.step true (.deliver 0) (by decide) fun _ => trivial).step true (.recv 8) trivial fun _ => trivial
  have answered := (handed.step true (.update 0) trivial (by decide)).step false (.deliver 0) (by decide) nofun
  have next := (answered.step false (.send [8]) trivial nofun).step false (.update 10) trivial nofun
  exact ⟨by decide, next.stalls⟩

end Session

end Xxlib.Kcp
