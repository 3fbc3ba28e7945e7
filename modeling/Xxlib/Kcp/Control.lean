import Xxlib.Kcp.Segment

/-! The control block of KCP: creation, `ikcp_send`, `ikcp_recv` and `ikcp_input` (`test_uv_3/ikcp.h`, `test_uv_4/ikcp.cpp`).

Both files have the same functions. They differ in `IKCP_OVERHEAD`, which is a parameter here: 36 in `test_uv_3`, where it is
the size of a header, and 24 in `test_uv_4`.
-/

set_option autoImplicit false

namespace Xxlib.Kcp

open Lib (serialDiff toInt32)

def ikcpRtoMax : UInt32 := 60000
def ikcpAskSend : UInt32 := 1
def ikcpAskTell : UInt32 := 2
def ikcpWndRcv : Nat := 128
def ikcpThreshMin : UInt32 := 2

/-- `IKCPCB`. The queues are lists, and `acklist` the numbers and the times that wait to be acknowledged. -/
structure Ikcpcb where
  conv : Guid
  mtu : UInt32
  mss : UInt32
  sndUna : UInt32 := 0
  sndNxt : UInt32 := 0
  rcvNxt : UInt32 := 0
  ssthresh : UInt32 := ikcpThreshMin
  rxRttval : Int32 := 0
  rxSrtt : Int32 := 0
  rxRto : Int32 := 200
  rxMinrto : Int32 := 100
  sndWnd : UInt32 := 32
  rcvWnd : UInt32 := 128
  rmtWnd : UInt32 := 128
  cwnd : UInt32 := 0
  probe : UInt32 := 0
  current : UInt32 := 0
  interval : UInt32 := 17
  tsFlush : UInt32 := 17
  nrcvBuf : UInt32 := 0
  nsndBuf : UInt32 := 0
  nrcvQue : UInt32 := 0
  nsndQue : UInt32 := 0
  nodelay : Int := 0
  updated : Bool := false
  tsProbe : UInt32 := 0
  probeWait : UInt32 := 0
  incr : UInt32 := 0
  sndQueue : List Ikcpseg := []
  rcvQueue : List Ikcpseg := []
  sndBuf : List Ikcpseg := []
  rcvBuf : List Ikcpseg := []
  acklist : List (UInt32 × UInt32) := []
  fastresend : Int := 0
  nocwnd : Int := 0
  stream : Int := 0
  deriving DecidableEq

/-- `_imin_` -/
def imin (a b : UInt32) : UInt32 := if a ≤ b then a else b

/-- `_imax_` -/
def imax (a b : UInt32) : UInt32 := if b ≤ a then a else b

/-- `_ibound_` -/
def ibound (lower middle upper : UInt32) : UInt32 := imin (imax lower middle) upper

/-- `_itimediff` -/
def itimediff (later earlier : UInt32) : Int := serialDiff later earlier

/-! ## Creation and configuration -/

def ikcpCreate (overhead : Nat) (conv : Guid) : Ikcpcb where
  conv := conv
  mtu := 1400
  mss := 1400 - UInt32.ofNat overhead

/-- The new `mtu` is taken over even if segments of the old size are queued. -/
def ikcpSetmtu (overhead : Nat) (kcp : Ikcpcb) (mtu : Int32) : Int × Ikcpcb :=
  if mtu < 50 ∨ mtu.toInt < overhead then (-1, kcp)
  else (0, { kcp with mtu := mtu.toUInt32, mss := mtu.toUInt32 - UInt32.ofNat overhead })

def ikcpNodelay (kcp : Ikcpcb) (nodelay interval resend nc : Int32) : Ikcpcb :=
  let kcp := if 0 ≤ nodelay then
    { kcp with nodelay := nodelay.toInt, rxMinrto := if nodelay ≠ 0 then 30 else 100 } else kcp
  let kcp := if 0 ≤ interval then
    { kcp with interval := (if 5000 < interval then 5000 else if interval < 10 then 10 else interval).toUInt32 } else kcp
  let kcp := if 0 ≤ resend then { kcp with fastresend := resend.toInt } else kcp
  if 0 ≤ nc then { kcp with nocwnd := nc.toInt } else kcp

def ikcpWndsize (kcp : Ikcpcb) (sndwnd rcvwnd : Int32) : Ikcpcb :=
  let kcp := if 0 < sndwnd then { kcp with sndWnd := sndwnd.toUInt32 } else kcp
  if 0 < rcvwnd then { kcp with rcvWnd := imax rcvwnd.toUInt32 (UInt32.ofNat ikcpWndRcv) } else kcp

def ikcpWaitsnd (kcp : Ikcpcb) : UInt32 := kcp.nsndBuf + kcp.nsndQue

/-! ## Sending -/

/-- A segment of the send queue. `ikcp_flush` sets its other fields when it takes it out. -/
def ikcpSegmentNew (kcp : Ikcpcb) (frg : Nat) (data : List UInt8) : Ikcpseg where
  conv := kcp.conv
  cmd := ikcpCmdPush
  frg := UInt32.ofNat frg
  wnd := 0
  ts := 0
  sn := 0
  una := 0
  data := data

/-- In streaming mode the last segment of the queue takes up what it has room for. -/
def appendToPrevious (kcp : Ikcpcb) (buffer : List UInt8) : Ikcpcb × List UInt8 :=
  match kcp.sndQueue.getLast? with
  | none => (kcp, buffer)
  | some old =>
      if old.data.length < kcp.mss.toNat then
        let extend := min buffer.length (kcp.mss.toNat - old.data.length)
        let seg := ikcpSegmentNew kcp 0 (old.data ++ buffer.take extend)
        ({ kcp with sndQueue := kcp.sndQueue.dropLast ++ [seg] }, buffer.drop extend)
      else (kcp, buffer)

/-- The loop that cuts a buffer into `count` segments. -/
def fragments (kcp : Ikcpcb) : Nat → List UInt8 → List Ikcpseg
  | 0, _ => []
  | rest + 1, buffer =>
      ikcpSegmentNew kcp (if kcp.stream = 0 then rest else 0) (buffer.take kcp.mss.toNat) ::
        fragments kcp rest (buffer.drop kcp.mss.toNat)

/-- How many segments a buffer takes. -/
def fragmentCount (mss len : Nat) : Nat := if len ≤ mss then 1 else (len + mss - 1) / mss

def enqueue (kcp : Ikcpcb) (buffer : List UInt8) : Int × Ikcpcb :=
  let count := fragmentCount kcp.mss.toNat buffer.length
  if ikcpWndRcv ≤ count then (-2, kcp)
  else
    let count := if count = 0 then 1 else count
    (0, { kcp with
      sndQueue := kcp.sndQueue ++ fragments kcp count buffer
      nsndQue := kcp.nsndQue + UInt32.ofNat count })

/-- In streaming mode nothing is queued that the last segment took up, and what it took up stays there if the rest is refused. -/
def ikcpSend (kcp : Ikcpcb) (buffer : List UInt8) : Int × Ikcpcb :=
  if kcp.stream ≠ 0 then
    let (kcp, buffer) := appendToPrevious kcp buffer
    if buffer = [] then (0, kcp) else enqueue kcp buffer
  else enqueue kcp buffer

/-! ## Receiving -/

/-- The lengths of the segments up to the last one of a message. -/
def messageLength : List Ikcpseg → Nat
  | [] => 0
  | seg :: rest => if seg.frg = 0 then seg.data.length else seg.data.length + messageLength rest

def ikcpPeeksize (kcp : Ikcpcb) : Int :=
  match kcp.rcvQueue with
  | [] => -1
  | seg :: _ =>
      if seg.frg = 0 then seg.data.length
      else if kcp.nrcvQue < seg.frg + 1 then -1
      else messageLength kcp.rcvQueue

/-- The segments up to the last one of a message, and those behind it. -/
def cutMessage : List Ikcpseg → List Ikcpseg × List Ikcpseg
  | [] => ([], [])
  | seg :: rest =>
      if seg.frg = 0 then ([seg], rest)
      else (seg :: (cutMessage rest).1, (cutMessage rest).2)

/-- The loop that moves available data from `rcv_buf` to `rcv_queue`. -/
def moveLoop (kcp : Ikcpcb) : List Ikcpseg → Ikcpcb
  | [] => { kcp with rcvBuf := [] }
  | seg :: rest =>
      if seg.sn = kcp.rcvNxt ∧ kcp.nrcvQue < kcp.rcvWnd then
        moveLoop { kcp with
          nrcvBuf := kcp.nrcvBuf - 1
          rcvQueue := kcp.rcvQueue ++ [seg]
          nrcvQue := kcp.nrcvQue + 1
          rcvNxt := kcp.rcvNxt + 1 } rest
      else { kcp with rcvBuf := seg :: rest }

def moveAvailable (kcp : Ikcpcb) : Ikcpcb := moveLoop kcp kcp.rcvBuf

/-- The first message is taken out of the queue. -/
def takeMessage (kcp : Ikcpcb) : Ikcpcb := { kcp with
  rcvQueue := (cutMessage kcp.rcvQueue).2
  nrcvQue := kcp.nrcvQue - UInt32.ofNat (cutMessage kcp.rcvQueue).1.length }

/-- If the queue was full and is not any more, the other side is told. -/
def fastRecover (recover : Bool) (kcp : Ikcpcb) : Ikcpcb :=
  if kcp.nrcvQue < kcp.rcvWnd ∧ recover then { kcp with probe := kcp.probe ||| ikcpAskTell } else kcp

/-- The result, what was copied into the buffer of `len` bytes, and the control block. A negative `len` leaves the message in
the queue. -/
def ikcpRecv (kcp : Ikcpcb) (len : Int) : Int × List UInt8 × Ikcpcb :=
  if kcp.rcvQueue = [] then (-1, [], kcp)
  else if ikcpPeeksize kcp < 0 then (-2, [], kcp)
  else if len.natAbs < ikcpPeeksize kcp then (-3, [], kcp)
  else
    let recover := kcp.rcvWnd ≤ kcp.nrcvQue
    let bytes := (cutMessage kcp.rcvQueue).1.flatMap Ikcpseg.data
    (bytes.length, bytes, fastRecover recover (moveAvailable (if len < 0 then kcp else takeMessage kcp)))

/-! ## Acknowledgements -/

def ikcpUpdateAck (kcp : Ikcpcb) (rtt : Int32) : Ikcpcb :=
  let kcp :=
    if kcp.rxSrtt = 0 then { kcp with rxSrtt := rtt, rxRttval := rtt / 2 }
    else
      let delta := if rtt - kcp.rxSrtt < 0 then -(rtt - kcp.rxSrtt) else rtt - kcp.rxSrtt
      let srtt := (7 * kcp.rxSrtt + rtt) / 8
      { kcp with rxRttval := (3 * kcp.rxRttval + delta) / 4, rxSrtt := if srtt < 1 then 1 else srtt }
  let rto := kcp.rxSrtt.toUInt32 + imax kcp.interval (4 * kcp.rxRttval).toUInt32
  { kcp with rxRto := (ibound kcp.rxMinrto.toUInt32 rto ikcpRtoMax).toInt32 }

def ikcpShrinkBuf (kcp : Ikcpcb) : Ikcpcb :=
  match kcp.sndBuf with
  | seg :: _ => { kcp with sndUna := seg.sn }
  | [] => { kcp with sndUna := kcp.sndNxt }

/-- The loop of `ikcp_parse_ack`: whether the segment was found, and what remains. -/
def removeAcked (sn : UInt32) : List Ikcpseg → Bool × List Ikcpseg
  | [] => (false, [])
  | seg :: rest =>
      if sn = seg.sn then (true, rest)
      else if itimediff sn seg.sn < 0 then (false, seg :: rest)
      else ((removeAcked sn rest).1, seg :: (removeAcked sn rest).2)

def ikcpParseAck (kcp : Ikcpcb) (sn : UInt32) : Ikcpcb :=
  if itimediff sn kcp.sndUna < 0 ∨ 0 ≤ itimediff sn kcp.sndNxt then kcp
  else
    let (found, sndBuf) := removeAcked sn kcp.sndBuf
    { kcp with sndBuf := sndBuf, nsndBuf := if found then kcp.nsndBuf - 1 else kcp.nsndBuf }

/-- The loop of `ikcp_parse_una`. -/
def ikcpParseUnaLoop (una : UInt32) (kcp : Ikcpcb) : List Ikcpseg → Ikcpcb
  | [] => { kcp with sndBuf := [] }
  | seg :: rest =>
      if 0 < itimediff una seg.sn then ikcpParseUnaLoop una { kcp with nsndBuf := kcp.nsndBuf - 1 } rest
      else { kcp with sndBuf := seg :: rest }

def ikcpParseUna (kcp : Ikcpcb) (una : UInt32) : Ikcpcb := ikcpParseUnaLoop una kcp kcp.sndBuf

/-- The loop of `ikcp_parse_fastack`. -/
def countFastack (sn : UInt32) : List Ikcpseg → List Ikcpseg
  | [] => []
  | seg :: rest =>
      if itimediff sn seg.sn < 0 then seg :: rest
      else if sn ≠ seg.sn then { seg with fastack := seg.fastack + 1 } :: countFastack sn rest
      else seg :: countFastack sn rest

def ikcpParseFastack (kcp : Ikcpcb) (sn : UInt32) : Ikcpcb :=
  if itimediff sn kcp.sndUna < 0 ∨ 0 ≤ itimediff sn kcp.sndNxt then kcp
  else { kcp with sndBuf := countFastack sn kcp.sndBuf }

def ikcpAckPush (kcp : Ikcpcb) (sn ts : UInt32) : Ikcpcb := { kcp with acklist := kcp.acklist ++ [(sn, ts)] }

/-! ## Data -/

/-- The place of a new segment in `rcv_buf`, which is searched from the back: `none` if it is a repeat. -/
def insertFromBack (newseg : Ikcpseg) : List Ikcpseg → Option (List Ikcpseg)
  | [] => some [newseg]
  | seg :: before =>
      if seg.sn = newseg.sn then none
      else if 0 < itimediff newseg.sn seg.sn then some (newseg :: seg :: before)
      else (insertFromBack newseg before).map (seg :: ·)

def insertData (kcp : Ikcpcb) (newseg : Ikcpseg) : Ikcpcb :=
  match insertFromBack newseg kcp.rcvBuf.reverse with
  | some found => { kcp with rcvBuf := found.reverse, nrcvBuf := kcp.nrcvBuf + 1 }
  | none => kcp

def ikcpParseData (kcp : Ikcpcb) (newseg : Ikcpseg) : Ikcpcb :=
  if 0 ≤ itimediff newseg.sn (kcp.rcvNxt + kcp.rcvWnd) ∨ itimediff newseg.sn kcp.rcvNxt < 0 then kcp
  else moveAvailable (insertData kcp newseg)

/-! ## Input -/

/-- The largest number that was acknowledged by a datagram so far. -/
def raiseMaxack (sn : UInt32) : Option UInt32 → UInt32
  | none => sn
  | some maxack => if 0 < itimediff sn maxack then sn else maxack

/-- What a segment does. -/
def inputSegment (kcp : Ikcpcb) (maxack : Option UInt32) (seg : Ikcpseg) : Ikcpcb × Option UInt32 :=
  let kcp := ikcpShrinkBuf (ikcpParseUna { kcp with rmtWnd := seg.wnd } seg.una)
  if seg.cmd = ikcpCmdAck then
    let rtt := itimediff kcp.current seg.ts
    let kcp := if 0 ≤ rtt then ikcpUpdateAck kcp (Int32.ofInt rtt) else kcp
    let kcp := ikcpShrinkBuf (ikcpParseAck kcp seg.sn)
    (kcp, some (raiseMaxack seg.sn maxack))
  else if seg.cmd = ikcpCmdPush then
    if itimediff seg.sn (kcp.rcvNxt + kcp.rcvWnd) < 0 then
      let kcp := ikcpAckPush kcp seg.sn seg.ts
      (if 0 ≤ itimediff seg.sn kcp.rcvNxt then ikcpParseData kcp seg else kcp, maxack)
    else (kcp, maxack)
  else if seg.cmd = ikcpCmdWask then ({ kcp with probe := kcp.probe ||| ikcpAskTell }, maxack)
  else (kcp, maxack)

/-- One segment more, or a part of one. -/
def raiseCwnd (kcp : Ikcpcb) : Ikcpcb :=
  if kcp.cwnd < kcp.ssthresh then { kcp with cwnd := kcp.cwnd + 1, incr := kcp.incr + kcp.mss }
  else
    let incr := if kcp.incr < kcp.mss then kcp.mss else kcp.incr
    let incr := incr + (kcp.mss * kcp.mss / incr + kcp.mss / 16)
    { kcp with incr := incr, cwnd := if (kcp.cwnd + 1) * kcp.mss ≤ incr then kcp.cwnd + 1 else kcp.cwnd }

/-- The window of the other side bounds it. -/
def capCwnd (kcp : Ikcpcb) : Ikcpcb :=
  if kcp.rmtWnd < kcp.cwnd then { kcp with cwnd := kcp.rmtWnd, incr := kcp.rmtWnd * kcp.mss } else kcp

/-- The window grows if something was acknowledged. -/
def growCwnd (kcp : Ikcpcb) (una : UInt32) : Ikcpcb :=
  if 0 < itimediff kcp.sndUna una ∧ kcp.cwnd < kcp.rmtWnd then capCwnd (raiseCwnd kcp) else kcp

/-- What `ikcp_input` does behind its loop. -/
def finishInput (una : UInt32) (kcp : Ikcpcb) : Option UInt32 → Ikcpcb
  | some maxack => growCwnd (ikcpParseFastack kcp maxack) una
  | none => growCwnd kcp una

/-- How a call of `ikcp_input` ends: it may read outside of the memory that it was given, or copy more than it has. -/
inductive Outcome where
  | returned (result : Int) (kcp : Ikcpcb)
  | fault
  deriving DecidableEq

/-- Whether the data of a segment are copied. -/
def copies (kcp : Ikcpcb) (header : Header) : Bool :=
  header.cmd.toUInt32 = ikcpCmdPush ∧ itimediff header.sn (kcp.rcvNxt + kcp.rcvWnd) < 0 ∧ 0 ≤ itimediff header.sn kcp.rcvNxt

/-- The segment that a header and the bytes behind it make. -/
def Header.segment (header : Header) (conv : Guid) (data : List UInt8) : Ikcpseg where
  conv := conv
  cmd := header.cmd.toUInt32
  frg := header.frg.toUInt32
  wnd := header.wnd.toUInt32
  ts := header.ts
  sn := header.sn
  una := header.una
  data := data

/-- The loop of `ikcp_input`. `data` is the memory from the pointer on, of which `size` bytes are left of the datagram; `len` is
compared as an `int`. A round takes a header at least, so `fuel` is enough if it is more than the memory. -/
def inputLoop (overhead : Nat) (una : UInt32) : Nat → Ikcpcb → Option UInt32 → List UInt8 → Int → Outcome
  | 0, _, _, _, _ => .fault
  | fuel + 1, kcp, maxack, data, size =>
      if size < overhead then .returned 0 (finishInput una kcp maxack)
      else if data.length < headerSize then .fault
      else
        let header := ikcpDecodeHeader data
        let data := data.drop headerSize
        let size := size - overhead
        if header.conv ≠ kcp.conv.bytes then .returned (-1) kcp
        else if size < toInt32 header.len.toNat then .returned (-2) kcp
        else if header.cmd.toUInt32 ≠ ikcpCmdPush ∧ header.cmd.toUInt32 ≠ ikcpCmdAck ∧
            header.cmd.toUInt32 ≠ ikcpCmdWask ∧ header.cmd.toUInt32 ≠ ikcpCmdWins then .returned (-3) kcp
        else if copies kcp header ∧ (2 ^ 31 ≤ header.len.toNat ∨ data.length < header.len.toNat) then .fault
        else
          let seg := header.segment kcp.conv (data.take header.len.toNat)
          let (kcp, maxack) := inputSegment kcp maxack seg
          inputLoop overhead una fuel kcp maxack (data.drop header.len.toNat) (toInt32 (size - header.len.toNat))

def ikcpInput (overhead : Nat) (kcp : Ikcpcb) (data : List UInt8) (size : Int) : Outcome :=
  if size < overhead then .returned (-1) kcp
  else inputLoop overhead kcp.sndUna (data.length + 1) kcp none data size

end Xxlib.Kcp
