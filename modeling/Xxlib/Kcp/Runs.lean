import Xxlib.Kcp.Arrival
import Xxlib.Kcp.Departure

/-! Runs of a KCP session: whatever the network does, each end hands over the messages of the other, each once, in order and
unchanged. -/

set_option autoImplicit false

namespace Xxlib.Kcp

open Session (windowLimit Fresh)

/-- One direction: `x` sends, and the datagrams on `wire` are its own. -/
structure Side (conv : Guid) (x y : Endpoint) (wire : List Datagram) (nsx hsx hsy : List Nat) : Prop where
  own : Local conv x
  link : Link x y nsx hsy
  delivered : Delivered x y
  carried : ∀ d ∈ wire, Carried x hsx d

/-- Both directions. -/
def Paired (conv : Guid) (x y : Endpoint) (wx wy : List Datagram) : Prop :=
  ∃ nsx nsy hsx hsy, Side conv x y wx nsx hsx hsy ∧ Side conv y x wy nsy hsy hsx

section
variable {conv : Guid} {x y x' : Endpoint} {wx wy : List Datagram} {nsx nsy hsx hsy : List Nat} {d : Datagram} {kcp' : Ikcpcb}

theorem Paired.symm (paired : Paired conv x y wx wy) : Paired conv y x wy wx := by
  obtain ⟨nsx, nsy, hsx, hsy, there, back⟩ := paired
  exact ⟨nsy, nsx, hsy, hsx, back, there⟩

theorem take_of_isPrefix {α : Type} {l l' : List α} {k : Nat} (part : l <+: l') (inside : k ≤ l.length) : l'.take k = l.take k := by
  obtain ⟨more, rfl⟩ := part
  exact List.take_append_of_le_length inside

/-- More has been given to send. -/
theorem Delivered.mono (delivered : Delivered x y) (mss : x'.kcp.mss = x.kcp.mss) (sent : x.sent <+: x'.sent)
    (log : x.log <+: x'.log) (taken : y.taken ≤ x.log.length) : Delivered x' y := by
  obtain ⟨k, inside, got, queue⟩ := delivered
  refine ⟨k, Nat.le_trans inside sent.length_le, ?_, ?_⟩
  · rw [take_of_isPrefix sent inside, got]
  · rw [take_of_isPrefix log taken, take_of_isPrefix sent inside, mss, queue]

theorem Delivered.congr {y' : Endpoint} (delivered : Delivered x y) (got : y'.got = y.got) (taken : y'.taken = y.taken)
    (rcvQueue : y'.kcp.rcvQueue = y.kcp.rcvQueue) : Delivered x y' := by
  obtain ⟨k, inside, handed, queue⟩ := delivered
  exact ⟨k, inside, by rw [got, handed], by rw [taken, rcvQueue, queue]⟩

/-- The end did nothing that the other could notice. -/
theorem Paired.quiet (paired : Paired conv x y wx wy) (own : Local conv x') (sender : SameSender x.kcp x'.kcp)
    (receiver : SameReceiver x.kcp x'.kcp) (acklist : x'.kcp.acklist = x.kcp.acklist) (mss : x'.kcp.mss = x.kcp.mss)
    (log : x'.log = x.log) (taken : x'.taken = x.taken) (told : x'.told = x.told) (got : x'.got = x.got)
    (sent : x.sent <+: x'.sent) : Paired conv x' y wx wy := by
  obtain ⟨nsx, nsy, hsx, hsy, there, back⟩ := paired
  have same : Received x' hsx = Received x hsx := by
    unfold Received
    rw [taken]
  have logged : x.log <+: x'.log := by rw [log]
  refine ⟨nsx, nsy, hsx, hsy, ⟨own, ?_, ?_, fun d member => ?_⟩, ⟨back.own, ?_, ?_, back.carried⟩⟩
  · exact there.link.congr sender log ⟨rfl, rfl, rfl, rfl, rfl⟩ rfl rfl rfl
  · exact there.delivered.mono mss sent logged there.link.takenLe
  · exact (there.carried d member).mono sender.conv logged (Nat.le_of_eq told.symm) fun n received => by rwa [same]
  · exact back.link.congr ⟨rfl, rfl, rfl, rfl, rfl⟩ rfl receiver acklist taken told
  · exact back.delivered.congr got taken receiver.rcvQueue

/-! ## What each function preserves -/

theorem Paired.send (paired : Paired conv x y wx wy) (buffer : List UInt8) : Paired conv (x.send buffer) y wx wy := by
  obtain ⟨_, _, _, _, there, _⟩ := id paired
  have own := there.own
  unfold Endpoint.send
  rcases send_eq own.stream buffer own.some with ⟨-, refused⟩ | ⟨few, segs, shape, queued⟩
  · rw [refused]
    exact paired
  · rw [queued]
    dsimp only
    rw [if_pos rfl]
    refine paired.quiet ⟨own.conv, own.stream, own.mtu, own.some, own.small, own.least, own.most, own.rmtWnd, ?_, ?_, ?_⟩
      ⟨rfl, rfl, rfl, rfl, rfl⟩ ⟨rfl, rfl, rfl, rfl, rfl⟩ rfl rfl rfl rfl rfl rfl (List.prefix_append _ _)
    · dsimp only
      rw [own.queued, ← UInt32.ofNat_add, List.length_append]
    · dsimp only
      rw [List.map_append, ← List.append_assoc, own.messages, shape, List.flatMap_append, List.flatMap_singleton]
    · intro message member
      rcases List.mem_append.mp member with old | new
      · exact own.few message old
      · rw [List.mem_singleton.mp new]
        exact few

/-- What `ikcp_wndsize`, `ikcp_nodelay` and the callers that set `rx_minrto` do not change. -/
structure SameQueues (kcp kcp' : Ikcpcb) : Prop where
  sender : SameSender kcp kcp'
  receiver : SameReceiver kcp kcp'
  acklist : kcp'.acklist = kcp.acklist
  stream : kcp'.stream = kcp.stream
  mtu : kcp'.mtu = kcp.mtu
  mss : kcp'.mss = kcp.mss
  rmtWnd : kcp'.rmtWnd = kcp.rmtWnd
  sndQueue : kcp'.sndQueue = kcp.sndQueue
  nsndQue : kcp'.nsndQue = kcp.nsndQue

theorem Paired.configure (paired : Paired conv x y wx wy) (same : SameQueues x.kcp kcp') (least : ikcpWndRcv ≤ kcp'.rcvWnd.toNat)
    (most : kcp'.rcvWnd.toNat ≤ windowLimit) : Paired conv { x with kcp := kcp' } y wx wy := by
  obtain ⟨_, _, _, _, there, _⟩ := id paired
  have own := there.own
  refine paired.quiet ⟨same.sender.conv.trans own.conv, same.stream.trans own.stream, ?_, ?_, ?_, least, most, ?_, ?_, ?_, ?_⟩
    same.sender same.receiver same.acklist same.mss rfl rfl rfl rfl (List.prefix_refl _)
  · dsimp only
    rw [same.mss, same.mtu]
    exact own.mtu
  · dsimp only
    rw [same.mss]
    exact own.some
  · dsimp only
    rw [same.mtu]
    exact own.small
  · dsimp only
    rw [same.rmtWnd]
    exact own.rmtWnd
  · dsimp only
    rw [same.nsndQue, same.sndQueue, own.queued]
  · dsimp only
    rw [same.sndQueue, same.mss]
    exact own.messages
  · dsimp only
    rw [same.mss]
    exact own.few

theorem Paired.wndsize (paired : Paired conv x y wx wy) (sndwnd rcvwnd : Int32) (small : rcvwnd.toInt ≤ windowLimit) :
    Paired conv { x with kcp := ikcpWndsize x.kcp sndwnd rcvwnd } y wx wy := by
  obtain ⟨_, _, _, _, there, _⟩ := id paired
  obtain ⟨sndWnd, rcvWnd, result, which⟩ := wndsize_eq x.kcp sndwnd rcvwnd
  have limit := Session.windowLimit_eq
  have bounds : ikcpWndRcv ≤ rcvWnd.toNat ∧ rcvWnd.toNat ≤ windowLimit := by
    rcases which with rfl | ⟨positive, rfl⟩
    · exact ⟨there.own.least, there.own.most⟩
    · obtain ⟨least, same⟩ := toNat_imax_ge rcvwnd.toUInt32 (UInt32.ofNat ikcpWndRcv)
      refine ⟨least, ?_⟩
      rcases same with same | same
      · rw [same, Int32.toNat_toUInt32_of_le (Int32.le_of_lt positive)]
        exact Int.toNat_le.mpr small
      · rw [same, limit]
        decide
  rw [result]
  exact paired.configure ⟨⟨rfl, rfl, rfl, rfl, rfl⟩, ⟨rfl, rfl, rfl, rfl, rfl⟩, rfl, rfl, rfl, rfl, rfl, rfl, rfl⟩ bounds.1 bounds.2

theorem Paired.nodelay (paired : Paired conv x y wx wy) (nodelay interval resend nc : Int32) :
    Paired conv { x with kcp := ikcpNodelay x.kcp nodelay interval resend nc } y wx wy := by
  obtain ⟨_, _, _, _, there, _⟩ := id paired
  obtain ⟨_, _, _, _, _, result, -⟩ := nodelay_eq x.kcp nodelay interval resend nc
  rw [result]
  exact paired.configure ⟨⟨rfl, rfl, rfl, rfl, rfl⟩, ⟨rfl, rfl, rfl, rfl, rfl⟩, rfl, rfl, rfl, rfl, rfl, rfl, rfl⟩
    there.own.least there.own.most

/-- A datagram of the other end arrives. -/
theorem Paired.input (paired : Paired conv x y wx wy) (member : d ∈ wy) (fresh : Fresh y d) :
    Paired conv (x.input d.bytes) y wx wy := by
  obtain ⟨nsx, nsy, hsx, hsy, there, back⟩ := paired
  have same : y.kcp.conv = x.kcp.conv := back.own.conv.trans there.own.conv.symm
  obtain ⟨segs, carries⟩ := back.carried d member
  obtain ⟨moved, nsx', hsx', -, result, arrived⟩ := there.link.input back.link there.own same carries fresh
  rw [result]
  refine ⟨nsx', nsy, hsx', hsy, ⟨?_, arrived.there, ?_, fun d member => ?_⟩, ⟨back.own, arrived.back, ?_, back.carried⟩⟩
  · exact there.own.congr arrived.config rfl rfl arrived.rmtWnd
  · exact there.delivered.mono arrived.config.mss (List.prefix_refl _) (List.prefix_refl _) there.link.takenLe
  · exact (there.carried d member).mono arrived.config.conv (List.prefix_refl _) (Nat.le_refl _) arrived.kept
  · exact back.delivered.took arrived.took

theorem emit_nothing (queue : kcp'.sndQueue = x.kcp.sndQueue) : x.emit kcp' [] = ({ x with kcp := kcp' }, []) := by
  rw [@emit_eq x [] x.kcp.sndQueue kcp' [] rfl queue, logged, List.map_nil, List.append_nil, if_pos rfl]
  rfl

/-- Datagrams are sent. -/
theorem Paired.flush (paired : Paired conv x y wx wy) : Paired conv x.flush.1 y (wx ++ x.flush.2) wy := by
  by_cases updated : x.kcp.updated = true
  swap
  · have result : ikcpFlush headerSize x.kcp = (x.kcp, []) := if_neg updated
    rw [Endpoint.flush, result, emit_nothing rfl, List.append_nil]
    exact paired
  obtain ⟨nsx, nsy, hsx, hsy, there, back⟩ := paired
  obtain ⟨nsx', departed⟩ := there.link.flush back.link there.own updated
  have taken : x.flush.1.taken = x.taken := rfl
  have same : Received x.flush.1 hsx = Received x hsx := by
    unfold Received
    rw [taken]
  have kcpConv : x.flush.1.kcp.conv = x.kcp.conv := departed.own.conv.trans there.own.conv.symm
  refine ⟨nsx', nsy, hsx, hsy, ⟨departed.own, departed.there, ?_, fun d member => ?_⟩,
    ⟨back.own, departed.back, back.delivered.congr rfl rfl departed.rcvQueue, back.carried⟩⟩
  · exact there.delivered.mono departed.mss (List.prefix_refl _) departed.log there.link.takenLe
  · rcases List.mem_append.mp member with old | new
    · exact (there.carried d old).mono kcpConv departed.log departed.told fun n received => by rwa [same]
    · exact departed.carried d new

theorem Paired.update (paired : Paired conv x y wx wy) (current : UInt32) :
    Paired conv (x.update current).1 y (wx ++ (x.update current).2) wy := by
  obtain ⟨tsFlush, result⟩ := update_eq headerSize x.kcp current
  obtain ⟨_, _, _, _, there, _⟩ := id paired
  have timed : Paired conv { x with kcp := { x.kcp with current := current, updated := true, tsFlush := tsFlush } } y wx wy :=
    paired.configure ⟨⟨rfl, rfl, rfl, rfl, rfl⟩, ⟨rfl, rfl, rfl, rfl, rfl⟩, rfl, rfl, rfl, rfl, rfl, rfl, rfl⟩
      there.own.least there.own.most
  unfold Endpoint.update
  rcases result with idle | flushes
  · rw [idle]
    dsimp only
    rw [emit_nothing, List.append_nil]
    · exact timed
    · rfl
  · rw [flushes]
    exact timed.flush

/-! ## Handing over a message -/

/-- What can be taken out of `rcv_buf` is taken, where `kcp` is the control block of `x` but for its queue. -/
theorem Link.move (back : Link y x nsy hsx) {kcp : Ikcpcb} (holds : Holds (Logged y.log) kcp x.taken hsx) (least : ikcpWndRcv ≤ kcp.rcvWnd.toNat)
    (acklist : kcp.acklist = x.kcp.acklist) : ∃ moved hsx',
      Link y { x with kcp := moveAvailable kcp, taken := x.taken + moved.length } nsy hsx' ∧
      Took y x kcp.rcvQueue moved (moveAvailable kcp) ∧ (∀ n, Received x hsx n → n < x.taken + moved.length ∨ n ∈ hsx') ∧
      SameConfig kcp (moveAvailable kcp) ∧ SameSender kcp (moveAvailable kcp) ∧
      (moveAvailable kcp).rmtWnd = kcp.rmtWnd := by
  obtain ⟨moved, hsx', advance, shape, idle⟩ := holds.move least
  have only := advance.only
  have acks : (moveAvailable kcp).acklist = x.kcp.acklist := by
    rw [only]
    exact acklist
  obtain ⟨link, took, kept⟩ := back.advance advance idle (fun n there => back.below n (by
    rwa [shape, List.mem_append, List.mem_range'_1])) (fun ack member => .inl (by rwa [← acks]))
  refine ⟨moved, hsx', link, took, kept, ?_, ?_, ?_⟩
  · rw [only]
    exact ⟨rfl, rfl, rfl, rfl, rfl, rfl, rfl⟩
  · rw [only]
    exact ⟨rfl, rfl, rfl, rfl, rfl⟩
  · rw [only]

/-- The end of `ikcp_recv`: `kcp` is the control block behind the loop that takes the message, and `got` what was handed over. -/
theorem Paired.move {kcp : Ikcpcb} {got : List (List UInt8)} (there : Side conv x y wx nsx hsx hsy) (back : Side conv y x wy nsy hsy hsx)
    (holds : Holds (Logged y.log) kcp x.taken hsx) (config : SameConfig x.kcp kcp) (sender : SameSender x.kcp kcp)
    (acklist : kcp.acklist = x.kcp.acklist) (rmtWnd : kcp.rmtWnd = x.kcp.rmtWnd)
    (delivered : Delivered y { x with kcp := kcp, got := got }) (probe : UInt32) :
    Paired conv { x with
      kcp := { moveAvailable kcp with probe := probe }
      taken := x.taken + grown x.kcp.rcvNxt (moveAvailable kcp).rcvNxt
      got := got } y wx wy := by
  have least : ikcpWndRcv ≤ kcp.rcvWnd.toNat := config.rcvWnd ▸ there.own.least
  obtain ⟨moved, hsx', link, took, kept, config', sender', rmtWnd'⟩ := back.link.move holds least acklist
  have counted : grown x.kcp.rcvNxt (moveAvailable kcp).rcvNxt = moved.length := took.grown link.receiver.queued
  rw [counted]
  generalize moveAvailable kcp = kcp' at link took config' sender' rmtWnd'
  have config'' := config.trans config'
  refine ⟨nsx, nsy, hsx', hsy, ⟨?_, ?_, ?_, fun d member => ?_⟩, ⟨back.own, ?_, ?_, back.carried⟩⟩
  · refine there.own.congr ⟨config''.conv, config''.stream, config''.mtu, config''.mss, config''.rcvWnd, config''.sndQueue,
      config''.nsndQue⟩ rfl rfl ?_
    dsimp only
    rw [rmtWnd', rmtWnd]
    exact there.own.rmtWnd
  · refine there.link.congr ⟨?_, ?_, ?_, ?_, ?_⟩ rfl ⟨rfl, rfl, rfl, rfl, rfl⟩ rfl rfl rfl
    · exact sender'.conv.trans sender.conv
    · exact sender'.sndBuf.trans sender.sndBuf
    · exact sender'.nsndBuf.trans sender.nsndBuf
    · exact sender'.sndNxt.trans sender.sndNxt
    · exact sender'.sndUna.trans sender.sndUna
  · exact there.delivered.mono config''.mss (List.prefix_refl _) (List.prefix_refl _) there.link.takenLe
  · exact (there.carried d member).mono config''.conv (List.prefix_refl _) (Nat.le_refl _) kept
  · exact link.congr ⟨rfl, rfl, rfl, rfl, rfl⟩ rfl ⟨rfl, rfl, rfl, rfl, rfl⟩ rfl rfl rfl
  · have nxt : kcp.rcvNxt = x.kcp.rcvNxt := holds.nxt.trans back.link.receiver.nxt.symm
    have next : kcp'.rcvNxt = kcp.rcvNxt + UInt32.ofNat moved.length := by rw [took.nxt, nxt]
    exact (delivered.took ⟨took.queue, next, took.log⟩).congr rfl rfl rfl

theorem Paired.recv (paired : Paired conv x y wx wy) (len : Int) : Paired conv (x.recv len) y wx wy := by
  obtain ⟨nsx, nsy, hsx, hsy, there, back⟩ := id paired
  have holds := back.link.receiver
  unfold Endpoint.recv
  rcases recv_eq x.kcp len with ⟨-, failed, same⟩ | ⟨some, whole, fits, probe, result⟩
  · have still : grown x.kcp.rcvNxt x.kcp.rcvNxt = 0 := by
      rw [grown, UInt32.sub_self, UInt32.toNat_zero]
    dsimp only
    rw [same, still, if_neg fun some => absurd failed (Int.not_lt.mpr some.1)]
    exact paired
  · obtain ⟨message, sent, bytes, delivered⟩ := back.delivered.next back.own holds.queued some whole
    rw [result, bytes]
    by_cases peek : len < 0
    · rw [if_pos peek]
      dsimp only
      rw [if_neg fun some => absurd peek (Int.not_lt.mpr some.2)]
      exact Paired.move there back holds ⟨rfl, rfl, rfl, rfl, rfl, rfl, rfl⟩ ⟨rfl, rfl, rfl, rfl, rfl⟩ rfl rfl back.delivered probe
    · rw [if_neg peek]
      dsimp only
      rw [if_pos ⟨Int.natCast_nonneg _, Int.not_lt.mp peek⟩]
      exact Paired.move there back holds.dequeue ⟨rfl, rfl, rfl, rfl, rfl, rfl, rfl⟩ ⟨rfl, rfl, rfl, rfl, rfl⟩ rfl rfl delivered probe

end

/-! ## Every run -/

namespace Session

variable {s : Session}

/-- The invariant. -/
def Inv (conv : Guid) (s : Session) : Prop := Paired conv (s.ends false) (s.ends true) (s.wire false) (s.wire true)

variable {conv : Guid}

theorem Inv.paired (inv : Inv conv s) (b : Bool) : Paired conv (s.ends b) (s.ends (!b)) (s.wire b) (s.wire (!b)) := by
  cases b with
  | false => exact inv
  | true => exact Paired.symm inv

theorem inv_of_paired {b : Bool} (paired : Paired conv (s.ends b) (s.ends (!b)) (s.wire b) (s.wire (!b))) : Inv conv s := by
  cases b with
  | false => exact paired
  | true => exact paired.symm

theorem inv_set {b : Bool} {e : Endpoint} (paired : Paired conv e (s.ends (!b)) (s.wire b) (s.wire (!b))) :
    Inv conv (s.set b e) := by
  refine @inv_of_paired _ conv b ?_
  have other : (!b) ≠ b := by cases b <;> decide
  unfold set
  dsimp only
  rw [Function.update_self, Function.update_of_ne other]
  exact paired

theorem inv_put {b : Bool} {result : Endpoint × List Datagram}
    (paired : Paired conv result.1 (s.ends (!b)) (s.wire b ++ result.2) (s.wire (!b))) : Inv conv (s.put b result) := by
  refine @inv_of_paired _ conv b ?_
  have other : (!b) ≠ b := by cases b <;> decide
  unfold put
  dsimp only
  rw [Function.update_self, Function.update_self, Function.update_of_ne other, Function.update_of_ne other]
  exact paired

/-- An end that has done nothing. -/
def blank (conv : Guid) (mtu mss : UInt32) : Endpoint where
  kcp := { conv := conv, mtu := mtu, mss := mss }

theorem local_blank {conv : Guid} {mtu mss : UInt32} (fits : mss.toNat + headerSize = mtu.toNat) (positive : 0 < mss.toNat)
    (small : mtu.toNat < 2 ^ 31) : Local conv (blank conv mtu mss) where
  conv := rfl
  stream := rfl
  mtu := fits
  some := positive
  small := small
  least := (by decide : ikcpWndRcv ≤ (128 : UInt32).toNat)
  most := (by decide : (128 : UInt32).toNat ≤ windowLimit)
  rmtWnd := (by decide : (128 : UInt32).toNat ≤ 65535)
  queued := rfl
  messages := rfl
  few := by
    rintro message ⟨⟩

theorem link_blank {conv : Guid} {mtuX mssX mtuY mssY : UInt32} :
    Link (blank conv mtuX mssX) (blank conv mtuY mssY) [] [] where
  sender := ⟨.nil, .nil, by rintro n ⟨⟩, rfl, rfl, Nat.le_add_right 0 65535, rfl⟩
  receiver := ⟨.nil, .nil, by rintro h ⟨⟩, rfl, rfl, rfl⟩
  idle := by
    rintro _ ⟨⟩
  below := by
    rintro h ⟨⟩
  takenLe := Nat.le_refl 0
  kept n known := absurd known (Nat.not_lt_zero n)
  told := Nat.le_refl 0
  lag n known := absurd known (Nat.not_lt_zero n)
  acks := by
    rintro ack ⟨⟩

/-- What an end begins with. -/
theorem start_blank (conv : Guid) (mtu : Bool → Int32) (b : Bool) : ∃ mtu' mss : UInt32,
    (start conv mtu).ends b = blank conv mtu' mss ∧ mss.toNat + headerSize = mtu'.toNat ∧ 0 < mss.toNat ∧ mtu'.toNat < 2 ^ 31 := by
  unfold start
  dsimp only
  rcases setmtu_eq (by decide : headerSize < 50) (ikcpCreate headerSize conv) (mtu b) with refused | ⟨mtu', mss, result, fits⟩
  · rw [refused]
    exact ⟨1400, 1400 - UInt32.ofNat headerSize, rfl, by decide⟩
  · rw [result]
    exact ⟨mtu', mss, rfl, fits⟩

theorem inv_start (conv : Guid) (mtu : Bool → Int32) : Inv conv (start conv mtu) := by
  have side (b c : Bool) : Side conv ((start conv mtu).ends b) ((start conv mtu).ends c) ((start conv mtu).wire b) [] [] [] := by
    obtain ⟨mtuX, mssX, startX, fits, positive, small⟩ := start_blank conv mtu b
    obtain ⟨mtuY, mssY, startY, -⟩ := start_blank conv mtu c
    rw [startX, startY]
    refine ⟨local_blank fits positive small, link_blank, ⟨0, Nat.le_refl 0, rfl, rfl⟩, ?_⟩
    rintro d ⟨⟩
  exact ⟨[], [], [], [], side false true, side true false⟩

theorem Inv.step (inv : Inv conv s) (b : Bool) (act : Act) (allowed : s.Allowed b act) : Inv conv (s.step b act) := by
  have paired := inv.paired b
  cases act with
  | send buffer => exact inv_set (paired.send buffer)
  | recv len => exact inv_set (paired.recv len)
  | deliver i =>
    unfold Session.step
    dsimp only
    split
    · rename_i d there
      exact inv_set (paired.input (List.mem_of_getElem? there) (allowed d there))
    · exact inv
  | update current => exact inv_put (paired.update current)
  | flush => exact inv_put paired.flush
  | wndsize sndwnd rcvwnd => exact inv_set (paired.wndsize sndwnd rcvwnd allowed)
  | nodelay nodelay interval resend nc => exact inv_set (paired.nodelay nodelay interval resend nc)
  | minrto rxMinrto =>
    obtain ⟨_, _, _, _, there, _⟩ := id paired
    exact inv_set (paired.configure ⟨⟨rfl, rfl, rfl, rfl, rfl⟩, ⟨rfl, rfl, rfl, rfl, rfl⟩, rfl, rfl, rfl, rfl, rfl, rfl, rfl⟩
      there.own.least there.own.most)

theorem Run.inv (run : Run s) : ∃ conv, Inv conv s := by
  induction run with
  | start conv mtu => exact ⟨conv, inv_start conv mtu⟩
  | step b act _ allowed ih =>
    obtain ⟨conv, inv⟩ := ih
    exact ⟨conv, inv.step b act allowed⟩

theorem Run.paired (run : Run s) (b : Bool) : ∃ conv, Paired conv (s.ends b) (s.ends (!b)) (s.wire b) (s.wire (!b)) := by
  obtain ⟨conv, inv⟩ := run.inv
  exact ⟨conv, inv.paired b⟩

/-! ## What a run guarantees -/

/-- Messages are handed over in the order in which they were sent, each once and unchanged. -/
theorem Run.got_isPrefix (run : Run s) (b : Bool) : (s.ends b).got <+: (s.ends (!b)).sent := by
  obtain ⟨conv, _, _, _, _, -, back⟩ := run.paired b
  obtain ⟨k, -, got, -⟩ := back.delivered
  rw [got]
  exact List.take_prefix k _

/-- A message of two fragments that arrive in the other order, the second of them twice. -/
def exchange : Session :=
  (start .zero fun _ => 50).perform
    [(false, .nodelay 1 10 2 1), (false, .send (List.replicate 20 7)), (false, .update 0), (true, .deliver 1), (true, .deliver 0),
      (true, .deliver 1)]

theorem exchange_run : Run exchange := (Run.start _ _).perform (by decide)

theorem got_isPrefix_exchange : ((exchange.step true (.recv 32)).ends true).got = [List.replicate 20 7] ∧
    ((exchange.step true (.recv 32)).ends true).got <+: ((exchange.step true (.recv 32)).ends false).sent :=
  ⟨by decide, (exchange_run.step true (.recv 32) trivial).got_isPrefix true⟩

/-- `ikcp_input` succeeds for every datagram that is not out of date. -/
theorem Run.input_returns (run : Run s) (b : Bool) {i : Nat} {d : Datagram} (there : (s.wire (!b))[i]? = some d)
    (fresh : Fresh (s.ends (!b)) d) : ∃ kcp, ikcpInput headerSize (s.ends b).kcp d.bytes d.bytes.length = .returned 0 kcp := by
  obtain ⟨conv, _, _, _, _, own, back⟩ := run.paired b
  have same : (s.ends (!b)).kcp.conv = (s.ends b).kcp.conv := back.own.conv.trans own.own.conv.symm
  obtain ⟨segs, carries⟩ := back.carried d (List.mem_of_getElem? there)
  obtain ⟨_, _, _, returned, -⟩ := own.link.input back.link own.own same carries fresh
  exact ⟨_, returned⟩

theorem input_returns_exchange : ∃ kcp, ikcpInput headerSize (exchange.ends true).kcp ((exchange.wire false).get ⟨0, by decide⟩).bytes
    ((exchange.wire false).get ⟨0, by decide⟩).bytes.length = .returned 0 kcp :=
  exchange_run.input_returns true (i := 0) (by decide) (by decide)

/-- Nothing is lost: when the sender keeps nothing and `ikcp_recv` finds no message, all messages have been handed over. -/
theorem Run.got_eq_sent (run : Run s) (b : Bool) (queue : (s.ends (!b)).kcp.sndQueue = []) (buf : (s.ends (!b)).kcp.sndBuf = [])
    (drained : ikcpPeeksize (s.ends b).kcp < 0) : (s.ends b).got = (s.ends (!b)).sent := by
  obtain ⟨conv, _, nsy, hsx, _, -, back⟩ := run.paired b
  have queued := back.link.receiver.queued
  have none : nsy = [] := by
    have length := back.link.sender.nums.length_eq
    rw [buf, List.length_nil] at length
    exact List.length_eq_zero_iff.mp length.symm
  refine back.delivered.all back.own queued queue (Nat.le_antisymm back.link.takenLe (Nat.not_lt.mp fun less => ?_)) drained
  -- the next number is neither unacknowledged nor taken, and the queue would have room for it
  rcases back.link.kept _ less with waits | before | held
  · rw [none] at waits
    cases waits
  · exact Nat.lt_irrefl _ before
  · exact back.link.idle (back.delivered.few back.own queued drained) held

/-- The message has been acknowledged. -/
def acknowledged : List (Bool × Act) := [(true, .update 0), (false, .deliver 0), (true, .recv 32)]

theorem got_eq_sent_exchange : ((exchange.perform acknowledged).ends true).got = ((exchange.perform acknowledged).ends false).sent :=
  (exchange_run.perform (by decide)).got_eq_sent true (by decide) (by decide) (by decide)

/-- `ikcp_recv` finds no message, or one that is too long, or it hands over the next one. -/
theorem Run.recv_cases (run : Run s) (b : Bool) {len : Int} (positive : 0 ≤ len) :
    ((ikcpRecv (s.ends b).kcp len).1 < 0 ∧ ((s.ends b).recv len).got = (s.ends b).got ∧
        (ikcpPeeksize (s.ends b).kcp < 0 ∨ len < ikcpPeeksize (s.ends b).kcp)) ∨
      ∃ message, (s.ends (!b)).sent[(s.ends b).got.length]? = some message ∧ message.length ≤ len ∧
        (ikcpRecv (s.ends b).kcp len).1 = message.length ∧ (ikcpRecv (s.ends b).kcp len).2.1 = message ∧
        ((s.ends b).recv len).got = (s.ends b).got ++ [message] := by
  obtain ⟨conv, _, _, _, _, -, back⟩ := run.paired b
  have size : (len.natAbs : Int) = len := Int.natAbs_of_nonneg positive
  rcases recv_eq (s.ends b).kcp len with ⟨reason, failed, -⟩ | ⟨some, whole, fits, probe, result⟩
  · refine .inl ⟨failed, if_neg fun some => absurd failed (Int.not_lt.mpr some.1), ?_⟩
    rw [size] at reason
    refine reason.elim (fun empty => .inl ?_) id
    unfold ikcpPeeksize
    rw [empty]
    exact Int.negSucc_lt_zero _
  · obtain ⟨message, sent, bytes, -⟩ := back.delivered.next back.own back.link.receiver.queued some whole
    rw [peeksize_eq whole, bytes, size] at fits
    refine .inr ⟨message, sent, fits, ?_, ?_, ?_⟩
    · rw [result, bytes]
    · rw [result, bytes]
    · unfold Endpoint.recv
      rw [result, bytes]
      dsimp only
      rw [if_pos ⟨Int.natCast_nonneg _, positive⟩]

/-- A receiver is never stuck: when a message is complete, and whenever the queue is full, `ikcp_recv` hands over the next one. -/
theorem Run.recv_next (run : Run s) (b : Bool)
    (ready : 0 ≤ ikcpPeeksize (s.ends b).kcp ∨ (s.ends b).kcp.rcvWnd ≤ (s.ends b).kcp.nrcvQue) :
    ∃ message, (s.ends (!b)).sent[(s.ends b).got.length]? = some message ∧ ikcpPeeksize (s.ends b).kcp = message.length ∧
      ∀ len : Int, message.length ≤ len → ((s.ends b).recv len).got = (s.ends b).got ++ [message] := by
  obtain ⟨conv, _, _, _, _, own, back⟩ := run.paired b
  have queued := back.link.receiver.queued
  have some : (s.ends b).kcp.rcvQueue ≠ [] := by
    intro empty
    rcases ready with whole | full
    · unfold ikcpPeeksize at whole
      rw [empty] at whole
      dsimp only at whole
      omega
    · have full := UInt32.le_iff_toNat_le.mp full
      have least := own.own.least
      rw [queued, empty, List.length_nil] at full
      rw [ikcpWndRcv] at least
      omega
  have whole : 0 ≤ ikcpPeeksize (s.ends b).kcp := by
    obtain ⟨k, message, later, -, left, -, -, complete⟩ := back.delivered.front back.own queued some
    refine ready.elim id fun full => complete.mpr ?_
    have full := UInt32.le_iff_toNat_le.mp full
    have least := own.own.least
    have few := back.own.few message (List.mem_of_mem_drop (left ▸ List.mem_cons_self))
    rw [queued] at full
    omega
  obtain ⟨message, sent, bytes, -⟩ := back.delivered.next back.own queued some whole
  have size := peeksize_eq whole
  rw [bytes] at size
  refine ⟨message, sent, size, fun len enough => ?_⟩
  rcases run.recv_cases b (Int.le_trans (Int.natCast_nonneg _) enough) with ⟨-, -, part | long⟩ | ⟨other, same, -, -, -, handed⟩
  · exact absurd part (Int.not_lt.mpr whole)
  · rw [size] at long
    omega
  · cases sent.symm.trans same
    exact handed

theorem recv_next_exchange : ∃ message, (exchange.ends false).sent[0]? = some message ∧
    ikcpPeeksize (exchange.ends true).kcp = message.length ∧
      ∀ len : Int, message.length ≤ len → ((exchange.ends true).recv len).got = [] ++ [message] :=
  exchange_run.recv_next true (.inl (by decide))

end Session

end Xxlib.Kcp
