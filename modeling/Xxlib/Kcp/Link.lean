import Xxlib.Kcp.Session
import Xxlib.Kcp.Views

/-! One direction of a KCP session: what its sender and its receiver know of each other. -/

set_option autoImplicit false

namespace Xxlib.Kcp

open Session (lifetime windowLimit Fresh)

/-- What is in `snd_buf` under the number `n`. -/
def Sent (conv : Guid) (log : List Payload) (n : Nat) (seg : Ikcpseg) : Prop :=
  seg.conv = conv ∧ seg.cmd = ikcpCmdPush ∧ log[n]? = some seg.payload

/-- What is in `rcv_buf` under the number `n`. -/
def Logged (log : List Payload) (n : Nat) (seg : Ikcpseg) : Prop := log[n]? = some seg.payload

/-- The receiver has what has the number `n`. -/
def Received (y : Endpoint) (hs : List Nat) (n : Nat) : Prop := n < y.taken ∨ n ∈ hs

/-- `x` has numbered the segments of its log, of which those with the numbers `ns` are in its `snd_buf`. `y` has taken the first
of them, and those with the numbers `hs` are in its `rcv_buf`. -/
structure Link (x y : Endpoint) (ns hs : List Nat) : Prop where
  sender : Unacked (Sent x.kcp.conv x.log) x.kcp x.log.length ns
  receiver : Holds (Logged x.log) y.kcp y.taken hs
  idle : Idle y.kcp y.taken hs
  below : ∀ h ∈ hs, h < x.log.length
  takenLe : y.taken ≤ x.log.length
  /-- Nothing is lost. -/
  kept : ∀ n < x.log.length, n ∈ ns ∨ Received y hs n
  told : y.told ≤ y.taken
  lag : ∀ n < x.log.length, n ∈ ns ∨ n < y.told + windowLimit
  acks : ∀ ack ∈ y.kcp.acklist, ∃ n, ack.1 = UInt32.ofNat n ∧ Received y hs n ∧ y.told ≤ n + lifetime + 65535 ∧
    n < y.taken + windowLimit

/-- What a segment of `x` says that arrives. -/
structure Genuine (x : Endpoint) (hs : List Nat) (d : Datagram) (seg : Ikcpseg) : Prop where
  una : seg.una = UInt32.ofNat d.taken
  push : seg.cmd = ikcpCmdPush → ∃ n, seg.sn = UInt32.ofNat n ∧ n < d.numbered ∧ d.numbered ≤ n + 65535 ∧ Logged x.log n seg
  ack : seg.cmd = ikcpCmdAck → ∃ n, seg.sn = UInt32.ofNat n ∧ Received x hs n ∧
    d.taken ≤ n + lifetime + windowLimit + 131070 ∧ n < d.taken + windowLimit
  wnd : seg.wnd.toNat ≤ 65535

/-- A datagram of `x` is made of the segments `segs`. -/
structure Carries (x : Endpoint) (hs : List Nat) (d : Datagram) (segs : List Ikcpseg) : Prop where
  numbered : d.numbered ≤ x.log.length
  taken : d.taken ≤ x.told
  some : segs ≠ []
  bytes : d.bytes = segs.flatMap wire
  small : (segs.flatMap wire).length < 2 ^ 31
  each : ∀ seg ∈ segs, WellFormed x.kcp.conv seg ∧ Genuine x hs d seg.received

/-- A datagram of `x` is made of genuine segments. -/
def Carried (x : Endpoint) (hs : List Nat) (d : Datagram) : Prop := ∃ segs, Carries x hs d segs

section
variable {x y x' y' : Endpoint} {ns hs ns' hs' : List Nat} {d : Datagram} {seg : Ikcpseg}

/-- How far the sender can be ahead of what the receiver last told. -/
theorem Link.reach (link : Link x y ns hs) : x.log.length ≤ y.told + windowLimit + 65535 := by
  have window := link.sender.window
  have start := headD_le link.sender.below
  rcases Nat.eq_zero_or_pos (ns.headD x.log.length) with zero | positive
  · omega
  · have first : ns.headD x.log.length - 1 ∉ ns := by
      intro member
      have low : ns.headD x.log.length ≤ ns.headD x.log.length - 1 := headD_le_of_mem link.sender.sorted member
      omega
    have lag := (link.lag (ns.headD x.log.length - 1) (by omega)).resolve_left first
    omega

/-- Neither the sender nor the receiver did anything of interest. -/
theorem Link.congr (link : Link x y ns hs) (sender : SameSender x.kcp x'.kcp) (log : x'.log = x.log)
    (receiver : SameReceiver y.kcp y'.kcp) (acklist : y'.kcp.acklist = y.kcp.acklist) (taken : y'.taken = y.taken)
    (told : y'.told = y.told) : Link x' y' ns hs := by
  have same : Received y' hs = Received y hs := by
    unfold Received
    rw [taken]
  refine ⟨?_, ?_, ?_, ?_, ?_, ?_, ?_, ?_, ?_⟩
  · rw [log, sender.conv]
    exact link.sender.congr sender
  · rw [log, taken]
    exact link.receiver.congr receiver
  · rw [taken]
    exact link.idle.congr receiver
  · rw [log]
    exact link.below
  · rw [log, taken]
    exact link.takenLe
  · rw [log, same]
    exact link.kept
  · rw [told, taken]
    exact link.told
  · rw [log, told]
    exact link.lag
  · rw [acklist, same, told, taken]
    exact link.acks

/-! ## Acknowledgements arrive -/

/-- What is taken out of `snd_buf` has been received. -/
theorem Link.acknowledge (link : Link x y ns hs) (takenLe : d.taken ≤ y.told) (fresh : Fresh y d) (genuine : Genuine y hs d seg) :
    ∃ ns', Link { x with kcp := acknowledge x.kcp seg } y ns' hs := by
  obtain ⟨sndBuf, nsndBuf, srtt, rttval, rto, result, -, reduced⟩ := acknowledge_spec x.kcp seg
  have reach := link.reach
  have told := link.told
  have below := link.takenLe
  have fresh := fresh.2
  obtain ⟨ns', less, unacked, left⟩ := link.sender.reduce (Kcp.acknowledge x.kcp seg) reduced (by rw [result])
    (by rw [result]) (by rw [result]) (by rw [result])
  have gone : ∀ n ∈ ns, n ∈ ns' ∨ Received y hs n ∧ n < y.told + windowLimit := by
    intro n member
    refine (left n member).imp_right ?_
    rintro ⟨sent, -, number, -, acked⟩
    have high := link.sender.below n member
    have low : ns.headD x.log.length ≤ n := headD_le_of_mem link.sender.sorted member
    have window := link.sender.window
    have limit := Session.windowLimit_eq
    have life := Session.lifetime_eq
    rcases acked with una | ⟨cmd, same⟩
    · rw [genuine.una, number, itimediff, Lib.serialDiff_ofNat (by omega) (by omega)] at una
      exact ⟨.inl (by omega), by omega⟩
    · obtain ⟨m, ackNumber, received, early, late⟩ := genuine.ack cmd
      have known : m < x.log.length := by
        rcases received with before | held
        · omega
        · exact link.below m held
      have equal : n = m := Lib.eq_of_ofNat_eq (by omega) (by omega) (number.symm.trans (same.trans ackNumber))
      rw [equal]
      exact ⟨received, by omega⟩
  refine ⟨ns', ?_, link.receiver, link.idle, link.below, link.takenLe, ?_, link.told, ?_, link.acks⟩
  · have conv : (Kcp.acknowledge x.kcp seg).conv = x.kcp.conv := by rw [result]
    dsimp only
    rw [conv]
    exact unacked
  · intro n known
    rcases link.kept n known with kept | received
    · exact (gone n kept).imp_right And.left
    · exact .inr received
  · intro n known
    rcases link.lag n known with kept | late
    · exact (gone n kept).imp_right And.right
    · exact .inr late

/-! ## Data arrive -/

/-- `moved` has come to the end of the queue of the receiver. -/
structure Took (x y : Endpoint) (queue moved : List Ikcpseg) (kcp' : Ikcpcb) : Prop where
  queue : kcp'.rcvQueue = queue ++ moved
  nxt : kcp'.rcvNxt = y.kcp.rcvNxt + UInt32.ofNat moved.length
  log : x.log.take (y.taken + moved.length) = x.log.take y.taken ++ moved.map Ikcpseg.payload

theorem take_log {log : List Payload} {taken : Nat} {moved : List Ikcpseg}
    (nums : Lib.Numbered Ikcpseg.sn (Logged log) moved (List.range' taken moved.length)) :
    log.take (taken + moved.length) = log.take taken ++ moved.map Ikcpseg.payload := by
  rw [List.take_add]
  congr 1
  apply List.ext_getElem?
  intro i
  rw [List.getElem?_take, List.getElem?_drop, List.getElem?_map]
  by_cases inside : i < moved.length
  · have found := (nums.get inside (by rwa [List.length_range'])).2
    simp only [List.get_eq_getElem, List.getElem_range', Nat.one_mul] at found
    rw [if_pos inside, found, List.getElem?_eq_getElem inside]
    rfl
  · rw [if_neg inside, List.getElem?_eq_none (Nat.not_lt.mp inside)]
    rfl

/-- The receiver goes on, and may have more to acknowledge. -/
theorem Link.advance (link : Link x y ns hs) {kcp₁ kcp' : Ikcpcb} {moved : List Ikcpseg}
    (advance : Advance (Logged x.log) kcp₁ kcp' y.taken hs moved hs') (idle : Idle kcp' (y.taken + moved.length) hs')
    (known : ∀ n, y.taken ≤ n ∧ n < y.taken + moved.length ∨ n ∈ hs' → n < x.log.length)
    (acks : ∀ ack ∈ kcp'.acklist, ack ∈ y.kcp.acklist ∨ ∃ n, ack.1 = UInt32.ofNat n ∧ (n < y.taken + moved.length ∨ n ∈ hs') ∧
      y.told ≤ n + lifetime + 65535 ∧ n < y.taken + windowLimit) :
    Link x { y with kcp := kcp', taken := y.taken + moved.length } ns hs' ∧ Took x y kcp₁.rcvQueue moved kcp' ∧
      ∀ n, Received y hs n → n < y.taken + moved.length ∨ n ∈ hs' := by
  have holds := advance.holds
  have told := link.told
  have takenLe := link.takenLe
  refine ⟨⟨link.sender, holds, idle, fun h member => known h (.inr member), ?_, ?_, ?_, link.lag, ?_⟩,
    ⟨?_, ?_, take_log advance.nums⟩, advance.kept⟩
  · change y.taken + moved.length ≤ x.log.length
    rcases Nat.eq_zero_or_pos moved.length with none | some
    · omega
    · have last := known (y.taken + moved.length - 1) (.inl (by omega))
      omega
  · intro n there
    exact (link.kept n there).imp_right (advance.kept n)
  · change y.told ≤ y.taken + moved.length
    omega
  · intro ack member
    rcases acks ack member with old | ⟨n, number, received, early, late⟩
    · obtain ⟨n, number, received, early, late⟩ := link.acks ack old
      refine ⟨n, number, advance.kept n received, early, ?_⟩
      change n < y.taken + moved.length + windowLimit
      omega
    · refine ⟨n, number, received, early, ?_⟩
      change n < y.taken + moved.length + windowLimit
      omega
  · rw [advance.only]
  · rw [holds.nxt, link.receiver.nxt, UInt32.ofNat_add]

/-- Nothing moves, but there may be more to acknowledge. -/
theorem Link.stay (link : Link x y ns hs) {kcp' : Ikcpcb} (same : SameReceiver y.kcp kcp')
    (acks : ∀ ack ∈ kcp'.acklist, ack ∈ y.kcp.acklist ∨ ∃ n, ack.1 = UInt32.ofNat n ∧ Received y hs n ∧
      y.told ≤ n + lifetime + 65535 ∧ n < y.taken + windowLimit) :
    ∃ moved hs', Link x { y with kcp := kcp', taken := y.taken + moved.length } ns hs' ∧ Took x y y.kcp.rcvQueue moved kcp' ∧
      ∀ n, Received y hs n → n < y.taken + moved.length ∨ n ∈ hs' := by
  refine ⟨[], hs, ?_⟩
  rw [← same.rcvQueue]
  refine link.advance (.refl (link.receiver.congr same)) (link.idle.congr same) ?_ acks
  rintro n (⟨above, below⟩ | held)
  · rw [List.length_nil] at below
    omega
  · exact link.below n held

/-- What 32 bits tell about a segment that was pushed. -/
theorem Link.distances (link : Link x y ns hs) (limit : y.kcp.rcvWnd.toNat ≤ windowLimit) {n : Nat}
    (number : seg.sn = UInt32.ofNat n) (below : n < x.log.length) (early : x.log.length ≤ n + lifetime + 65535) :
    itimediff seg.sn (y.kcp.rcvNxt + y.kcp.rcvWnd) = n - (y.taken + y.kcp.rcvWnd.toNat : Nat) ∧
      itimediff seg.sn y.kcp.rcvNxt = n - y.taken := by
  have limits := Session.windowLimit_eq
  have life := Session.lifetime_eq
  have reach := link.reach
  have takenLe := link.takenLe
  have told := link.told
  have window : y.kcp.rcvNxt + y.kcp.rcvWnd = UInt32.ofNat (y.taken + y.kcp.rcvWnd.toNat) := by
    rw [UInt32.ofNat_add, link.receiver.nxt, UInt32.ofNat_toNat]
  constructor
  · rw [itimediff, number, window]
    exact Lib.serialDiff_ofNat (by omega) (by omega)
  · rw [itimediff, number, link.receiver.nxt]
    exact Lib.serialDiff_ofNat (by omega) (by omega)

/-- A pushed segment is within the window, and new. -/
theorem Link.parseData (link : Link x y ns hs) (least : ikcpWndRcv ≤ y.kcp.rcvWnd.toNat) (limit : y.kcp.rcvWnd.toNat ≤ windowLimit)
    {n : Nat} (number : seg.sn = UInt32.ofNat n) (logged : Logged x.log n seg) (below : n < x.log.length)
    (new : y.taken ≤ n) (inside : n < y.taken + y.kcp.rcvWnd.toNat) :
    ∃ moved hs', Link x { y with
        kcp := ikcpParseData (ikcpAckPush y.kcp seg.sn seg.ts) seg
        taken := y.taken + moved.length } ns hs' ∧
      Took x y y.kcp.rcvQueue moved (ikcpParseData (ikcpAckPush y.kcp seg.sn seg.ts) seg) ∧
      ∀ n, Received y hs n → n < y.taken + moved.length ∨ n ∈ hs' := by
  have limits := Session.windowLimit_eq
  have life := Session.lifetime_eq
  have takenLe := link.takenLe
  have told := link.told
  have pushed : SameReceiver y.kcp (ikcpAckPush y.kcp seg.sn seg.ts) := ⟨rfl, rfl, rfl, rfl, rfl⟩
  -- no other number of the window is the same in 32 bits
  have only : ∀ m, seg.sn = UInt32.ofNat m → y.taken ≤ m → m < y.taken + y.kcp.rcvWnd.toNat → m = n :=
    fun m same low high => Lib.eq_of_ofNat_eq (by omega) (by omega) (same.symm.trans number)
  rw [ikcpWndRcv] at least
  obtain ⟨moved, hs', advance, held, origin⟩ := (link.receiver.congr pushed).parseData least (by
    change y.kcp.rcvWnd.toNat ≤ 2 ^ 31
    omega) seg (fun m same low high => only m same low high ▸ logged)
  refine ⟨moved, hs', @Link.advance x y ns hs hs' link (ikcpAckPush y.kcp seg.sn seg.ts) _ moved advance
    (advance.idle (link.idle.congr pushed)) ?_ ?_⟩
  · intro m there
    rcases origin m there with old | ⟨same, high⟩
    · exact link.below m old
    · have low : y.taken ≤ m := by
        rcases there with moved | held
        · exact moved.1
        · have := (advance.holds.range m held).1
          omega
      rw [only m same low high]
      exact below
  · intro ack member
    rw [advance.only] at member
    rcases List.mem_append.mp member with old | this
    · exact .inl old
    · rw [List.mem_singleton.mp this]
      exact .inr ⟨n, number, held n number new inside, by omega, by omega⟩

theorem Link.accept (link : Link x y ns hs) (least : ikcpWndRcv ≤ y.kcp.rcvWnd.toNat) (limit : y.kcp.rcvWnd.toNat ≤ windowLimit)
    (numbered : d.numbered ≤ x.log.length) (fresh : Fresh x d) {hsX : List Nat} (genuine : Genuine x hsX d seg) :
    ∃ moved hs', Link x { y with kcp := accept y.kcp seg, taken := y.taken + moved.length } ns hs' ∧
      Took x y y.kcp.rcvQueue moved (accept y.kcp seg) ∧ ∀ n, Received y hs n → n < y.taken + moved.length ∨ n ∈ hs' := by
  unfold Kcp.accept
  by_cases push : seg.cmd = ikcpCmdPush
  · obtain ⟨n, number, before, after, logged⟩ := genuine.push push
    have below : n < x.log.length := Nat.lt_of_lt_of_le before numbered
    have early : x.log.length ≤ n + lifetime + 65535 := by
      have recent := fresh.1
      omega
    obtain ⟨fromWindow, fromNext⟩ := link.distances limit number below early
    rw [if_pos push, fromWindow]
    by_cases inside : (n : Int) - (y.taken + y.kcp.rcvWnd.toNat : Nat) < 0
    · rw [if_pos inside]
      dsimp only
      have nextSame : (ikcpAckPush y.kcp seg.sn seg.ts).rcvNxt = y.kcp.rcvNxt := rfl
      rw [nextSame, fromNext]
      by_cases new : 0 ≤ (n : Int) - y.taken
      · rw [if_pos new]
        exact link.parseData least limit number logged below (by omega) (by omega)
      · -- the segment came before, and is acknowledged once more
        rw [if_neg new]
        refine link.stay ⟨rfl, rfl, rfl, rfl, rfl⟩ fun ack member => ?_
        rcases List.mem_append.mp member with old | this
        · exact .inl old
        · have told := link.told
          have takenLe := link.takenLe
          rw [List.mem_singleton.mp this]
          exact .inr ⟨n, number, .inl (by omega), by omega, by omega⟩
    · rw [if_neg inside]
      exact link.stay ⟨rfl, rfl, rfl, rfl, rfl⟩ fun ack member => .inl member
  · rw [if_neg push]
    split
    · exact link.stay ⟨rfl, rfl, rfl, rfl, rfl⟩ fun ack member => .inl member
    · exact link.stay ⟨rfl, rfl, rfl, rfl, rfl⟩ fun ack member => .inl member

end

end Xxlib.Kcp
