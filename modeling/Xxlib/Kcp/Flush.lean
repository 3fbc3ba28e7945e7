import Xxlib.Kcp.Control

/-! What KCP sends: `ikcp_flush`, and `ikcp_update` and `ikcp_check`, which say when (`test_uv_3/ikcp.h`, `test_uv_4/ikcp.cpp`). -/

set_option autoImplicit false

namespace Xxlib.Kcp

/-! ## The buffer -/

/-- The bytes of `buffer` up to `ptr`, and the datagrams that were output. -/
structure FlushBuffer where
  output : List (List UInt8) := []
  bytes : List UInt8 := []
  deriving DecidableEq

/-- `ikcp_output` does not send an empty datagram. -/
def ikcpOutput (buffer : FlushBuffer) : List (List UInt8) :=
  if buffer.bytes = [] then buffer.output else buffer.output ++ [buffer.bytes]

/-- The segment comes behind the others, unless they are `mtu` bytes then. -/
def FlushBuffer.put (mtu : Nat) (buffer : FlushBuffer) (need : Nat) (encoded : List UInt8) : FlushBuffer :=
  if mtu < buffer.bytes.length + need then ⟨ikcpOutput buffer, encoded⟩
  else { buffer with bytes := buffer.bytes ++ encoded }

/-! ## Acknowledgements and probes -/

def ikcpWndUnused (kcp : Ikcpcb) : UInt32 := if kcp.nrcvQue < kcp.rcvWnd then kcp.rcvWnd - kcp.nrcvQue else 0

/-- `seg` of `ikcp_flush`, which acknowledgements and probes are made from. -/
def controlSegment (kcp : Ikcpcb) (cmd : UInt32) (ack : UInt32 × UInt32) : Ikcpseg where
  conv := kcp.conv
  cmd := cmd
  frg := 0
  wnd := ikcpWndUnused kcp
  ts := ack.2
  sn := ack.1
  una := kcp.rcvNxt
  data := []

def putControl (overhead : Nat) (kcp : Ikcpcb) (cmd : UInt32) (buffer : FlushBuffer) (ack : UInt32 × UInt32) : FlushBuffer :=
  buffer.put kcp.mtu.toNat overhead (ikcpEncodeSeg (controlSegment kcp cmd ack))

def flushAcks (overhead : Nat) (kcp : Ikcpcb) : FlushBuffer := kcp.acklist.foldl (putControl overhead kcp ikcpCmdAck) {}

/-- While the window of the other side is closed it is asked for again and again. -/
def probeWindow (kcp : Ikcpcb) : Ikcpcb :=
  if kcp.rmtWnd = 0 then
    if kcp.probeWait = 0 then { kcp with probeWait := 7000, tsProbe := kcp.current + 7000 }
    else if 0 ≤ itimediff kcp.current kcp.tsProbe then
      let wait := if kcp.probeWait < 7000 then 7000 else kcp.probeWait
      let wait := wait + wait / 2
      let wait := if 120000 < wait then 120000 else wait
      { kcp with probeWait := wait, tsProbe := kcp.current + wait, probe := kcp.probe ||| ikcpAskSend }
    else kcp
  else { kcp with tsProbe := 0, probeWait := 0 }

/-- Probes carry the number and the time of the last acknowledgement. -/
def flushProbes (overhead : Nat) (kcp : Ikcpcb) (last : UInt32 × UInt32) (buffer : FlushBuffer) : FlushBuffer :=
  let buffer := if kcp.probe &&& ikcpAskSend ≠ 0 then putControl overhead kcp ikcpCmdWask buffer last else buffer
  if kcp.probe &&& ikcpAskTell ≠ 0 then putControl overhead kcp ikcpCmdWins buffer last else buffer

/-! ## Data -/

def windowSize (kcp : Ikcpcb) : UInt32 :=
  let cwnd := imin kcp.sndWnd kcp.rmtWnd
  if kcp.nocwnd = 0 then imin kcp.cwnd cwnd else cwnd

/-- A segment that goes from `snd_queue` to `snd_buf`. -/
def numberSegment (kcp : Ikcpcb) (newseg : Ikcpseg) : Ikcpseg := { newseg with
  conv := kcp.conv
  cmd := ikcpCmdPush
  wnd := ikcpWndUnused kcp
  ts := kcp.current
  sn := kcp.sndNxt
  una := kcp.rcvNxt
  resendts := kcp.current
  rto := kcp.rxRto.toUInt32
  fastack := 0
  xmit := 0 }

/-- The loop that moves data from `snd_queue` to `snd_buf`. -/
def fillSndBuf (cwnd : UInt32) (kcp : Ikcpcb) : List Ikcpseg → Ikcpcb
  | [] => { kcp with sndQueue := [] }
  | newseg :: rest =>
      if itimediff kcp.sndNxt (kcp.sndUna + cwnd) < 0 then
        fillSndBuf cwnd { kcp with
          sndBuf := kcp.sndBuf ++ [numberSegment kcp newseg]
          nsndQue := kcp.nsndQue - 1
          nsndBuf := kcp.nsndBuf + 1
          sndNxt := kcp.sndNxt + 1 } rest
      else { kcp with sndQueue := newseg :: rest }

/-- Why a segment of `snd_buf` is sent. -/
inductive Cause where
  | first
  | lost
  | skipped
  deriving DecidableEq

/-- `resent` of `ikcp_flush` -/
def resentLimit (kcp : Ikcpcb) : UInt32 := if 0 < kcp.fastresend then UInt32.ofNat kcp.fastresend.toNat else 0xffffffff

def sendCause (kcp : Ikcpcb) (segment : Ikcpseg) : Option Cause :=
  if segment.xmit = 0 then some .first
  else if 0 ≤ itimediff kcp.current segment.resendts then some .lost
  else if resentLimit kcp ≤ segment.fastack then some .skipped
  else none

/-- The next time to send it. -/
def scheduleSegment (kcp : Ikcpcb) (segment : Ikcpseg) : Cause → Ikcpseg
  | .first =>
      let rto := kcp.rxRto.toUInt32
      let rtomin := if kcp.nodelay = 0 then (kcp.rxRto >>> 3).toUInt32 else 0
      { segment with xmit := segment.xmit + 1, rto := rto, resendts := kcp.current + rto + rtomin }
  | .lost =>
      let rto := segment.rto + (if kcp.nodelay = 0 then kcp.rxRto.toUInt32 else (kcp.rxRto / 2).toUInt32)
      { segment with xmit := segment.xmit + 1, rto := rto, resendts := kcp.current + rto }
  | .skipped => { segment with xmit := segment.xmit + 1, fastack := 0, resendts := kcp.current + segment.rto }

/-- A segment of `snd_buf` behind the loop. -/
def sendSegment (kcp : Ikcpcb) (segment : Ikcpseg) : Ikcpseg :=
  match sendCause kcp segment with
  | some cause =>
      { scheduleSegment kcp segment cause with ts := kcp.current, wnd := ikcpWndUnused kcp, una := kcp.rcvNxt }
  | none => segment

def putData (overhead : Nat) (kcp : Ikcpcb) (buffer : FlushBuffer) (segment : Ikcpseg) : FlushBuffer :=
  if (sendCause kcp segment).isSome then
    let segment := sendSegment kcp segment
    buffer.put kcp.mtu.toNat (overhead + segment.data.length) (ikcpEncodeSeg segment ++ segment.data)
  else buffer

def flushData (overhead : Nat) (kcp : Ikcpcb) (buffer : FlushBuffer) : FlushBuffer :=
  kcp.sndBuf.foldl (putData overhead kcp) buffer

/-- Segments were skipped by acknowledgements. -/
def cwndChanged (kcp : Ikcpcb) (resent : UInt32) : Ikcpcb :=
  let inflight := kcp.sndNxt - kcp.sndUna
  let ssthresh := if inflight / 2 < ikcpThreshMin then ikcpThreshMin else inflight / 2
  { kcp with ssthresh := ssthresh, cwnd := ssthresh + resent, incr := (ssthresh + resent) * kcp.mss }

/-- Segments were lost. `cwnd` is the window that was used. -/
def cwndLost (kcp : Ikcpcb) (cwnd : UInt32) : Ikcpcb :=
  { kcp with ssthresh := if cwnd / 2 < ikcpThreshMin then ikcpThreshMin else cwnd / 2, cwnd := 1, incr := kcp.mss }

def shrinkCwnd (kcp : Ikcpcb) (cwnd resent : UInt32) (change lost : Bool) : Ikcpcb :=
  let kcp := if change then cwndChanged kcp resent else kcp
  let kcp := if lost then cwndLost kcp cwnd else kcp
  if kcp.cwnd < 1 then { kcp with cwnd := 1, incr := kcp.mss } else kcp

/-! ## Flush -/

/-- What `ikcp_flush` does before it sends data. -/
def prepareFlush (kcp : Ikcpcb) : Ikcpcb :=
  let kcp := { probeWindow kcp with acklist := [], probe := 0 }
  fillSndBuf (windowSize kcp) kcp kcp.sndQueue

/-- The datagrams that are output. -/
def flushOutput (overhead : Nat) (kcp : Ikcpcb) : List (List UInt8) :=
  let buffer := flushAcks overhead kcp
  let buffer := flushProbes overhead (probeWindow kcp) (kcp.acklist.getLastD (0, 0)) buffer
  ikcpOutput (flushData overhead (prepareFlush kcp) buffer)

def ikcpFlush (overhead : Nat) (kcp : Ikcpcb) : Ikcpcb × List (List UInt8) :=
  if kcp.updated then
    let cwnd := windowSize kcp
    let prepared := prepareFlush kcp
    let causes := prepared.sndBuf.map (sendCause prepared)
    let kcp' := { prepared with sndBuf := prepared.sndBuf.map (sendSegment prepared) }
    (shrinkCwnd kcp' cwnd (resentLimit kcp) (some .skipped ∈ causes) (some .lost ∈ causes), flushOutput overhead kcp)
  else (kcp, [])

/-! ## Time -/

def ikcpUpdate (overhead : Nat) (kcp : Ikcpcb) (current : UInt32) : Ikcpcb × List (List UInt8) :=
  let kcp := { kcp with current := current }
  let kcp := if kcp.updated then kcp else { kcp with updated := true, tsFlush := current }
  let slap := itimediff current kcp.tsFlush
  let reset := 10000 ≤ slap ∨ slap < -10000
  let kcp := if reset then { kcp with tsFlush := current } else kcp
  let slap := if reset then 0 else slap
  if 0 ≤ slap then
    let tsFlush := kcp.tsFlush + kcp.interval
    let tsFlush := if 0 ≤ itimediff current tsFlush then current + kcp.interval else tsFlush
    ikcpFlush overhead { kcp with tsFlush := tsFlush }
  else (kcp, [])

/-- The loop of `ikcp_check`: how long until a segment is to be sent again, `none` if one is already. -/
def nextResend (current : UInt32) : List Ikcpseg → Int → Option Int
  | [], tmPacket => some tmPacket
  | seg :: rest, tmPacket =>
      let diff := itimediff seg.resendts current
      if diff ≤ 0 then none else nextResend current rest (if diff < tmPacket then diff else tmPacket)

def ikcpCheck (kcp : Ikcpcb) (current : UInt32) : UInt32 :=
  if kcp.updated then
    let tsFlush :=
      if 10000 ≤ itimediff current kcp.tsFlush ∨ itimediff current kcp.tsFlush < -10000 then current else kcp.tsFlush
    if 0 ≤ itimediff current tsFlush then current
    else
      let tmFlush := itimediff tsFlush current
      match nextResend current kcp.sndBuf 0x7fffffff with
      | none => current
      | some tmPacket =>
          let minimal := UInt32.ofNat (if tmPacket < tmFlush then tmPacket else tmFlush).toNat
          current + (if kcp.interval ≤ minimal then kcp.interval else minimal)
  else current

end Xxlib.Kcp
