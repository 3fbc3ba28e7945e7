import Mathlib.Logic.Function.Basic
import Xxlib.Kcp.Output

/-! Two ends of a KCP conversation, and a network between them that loses datagrams, repeats them and changes their order
(`test_uv_3/ikcp.h`).

Every datagram stays on the wire, and may be delivered at any time and any number of times. Numbers have 32 bits, so a datagram
must not be delivered when its sender has gone on too far since it was sent.
-/

set_option autoImplicit false

namespace Xxlib.Kcp

/-- A datagram, and how many segments its sender had numbered and taken when it was output. -/
structure Datagram where
  bytes : List UInt8
  numbered : Nat
  taken : Nat
  deriving DecidableEq

/-- A control block, and what has happened: the segments that got numbers, how many of those of the other side have left
`rcv_buf`, and had done so when a datagram was last output, and what was sent and received. -/
structure Endpoint where
  kcp : Ikcpcb
  log : List Payload := []
  taken : Nat := 0
  told : Nat := 0
  sent : List (List UInt8) := []
  got : List (List UInt8) := []
  deriving DecidableEq

/-- How much the count of a serial number has grown. -/
def grown (before after : UInt32) : Nat := (after - before).toNat

namespace Endpoint

def send (e : Endpoint) (buffer : List UInt8) : Endpoint :=
  let (result, kcp) := ikcpSend e.kcp buffer
  { e with kcp := kcp, sent := if result = 0 then e.sent ++ [buffer] else e.sent }

/-- A negative `len` only looks at the message. -/
def recv (e : Endpoint) (len : Int) : Endpoint :=
  let (result, bytes, kcp) := ikcpRecv e.kcp len
  { e with
    kcp := kcp
    taken := e.taken + grown e.kcp.rcvNxt kcp.rcvNxt
    got := if 0 ≤ result ∧ 0 ≤ len then e.got ++ [bytes] else e.got }

def input (e : Endpoint) (bytes : List UInt8) : Endpoint :=
  match ikcpInput headerSize e.kcp bytes bytes.length with
  | .returned _ kcp => { e with kcp := kcp, taken := e.taken + grown e.kcp.rcvNxt kcp.rcvNxt }
  | .fault => e

/-- What `ikcp_flush` or `ikcp_update` left, and output. -/
def emit (e : Endpoint) (kcp : Ikcpcb) (output : List (List UInt8)) : Endpoint × List Datagram :=
  let numbered := e.kcp.sndQueue.take (e.kcp.sndQueue.length - kcp.sndQueue.length)
  let log := e.log ++ numbered.map Ikcpseg.payload
  ({ e with kcp := kcp, log := log, told := if output = [] then e.told else e.taken },
    output.map fun bytes => ⟨bytes, log.length, e.taken⟩)

def flush (e : Endpoint) : Endpoint × List Datagram := e.emit (ikcpFlush headerSize e.kcp).1 (ikcpFlush headerSize e.kcp).2

def update (e : Endpoint) (current : UInt32) : Endpoint × List Datagram :=
  e.emit (ikcpUpdate headerSize e.kcp current).1 (ikcpUpdate headerSize e.kcp current).2

end Endpoint

/-- The two ends, and the datagrams that each of them has sent. -/
structure Session where
  ends : Bool → Endpoint
  wire : Bool → List Datagram

inductive Act where
  | send (buffer : List UInt8)
  | recv (len : Int)
  | deliver (i : Nat)
  | update (current : UInt32)
  | flush
  | wndsize (sndwnd rcvwnd : Int32)
  | nodelay (nodelay interval resend nc : Int32)
  | minrto (rxMinrto : Int32)

namespace Session

def set (s : Session) (b : Bool) (e : Endpoint) : Session := { s with ends := Function.update s.ends b e }

def put (s : Session) (b : Bool) (result : Endpoint × List Datagram) : Session where
  ends := Function.update s.ends b result.1
  wire := Function.update s.wire b (s.wire b ++ result.2)

/-- What end `b` does. A datagram that is delivered is one of the other end. -/
def step (s : Session) (b : Bool) : Act → Session
  | .send buffer => s.set b ((s.ends b).send buffer)
  | .recv len => s.set b ((s.ends b).recv len)
  | .deliver i =>
      match (s.wire (!b))[i]? with
      | some d => s.set b ((s.ends b).input d.bytes)
      | none => s
  | .update current => s.put b ((s.ends b).update current)
  | .flush => s.put b (s.ends b).flush
  | .wndsize sndwnd rcvwnd => s.set b { s.ends b with kcp := ikcpWndsize (s.ends b).kcp sndwnd rcvwnd }
  | .nodelay nodelay interval resend nc =>
      s.set b { s.ends b with kcp := ikcpNodelay (s.ends b).kcp nodelay interval resend nc }
  | .minrto rxMinrto => s.set b { s.ends b with kcp := { (s.ends b).kcp with rxMinrto := rxMinrto } }

/-- Both ends are created for the same conversation, and may choose an MTU. -/
def start (conv : Guid) (mtu : Bool → Int32) : Session where
  ends b := { kcp := (ikcpSetmtu headerSize (ikcpCreate headerSize conv) (mtu b)).2 }
  wire _ := []

/-- So many segments may be numbered, or taken, before a datagram is out of date. -/
def lifetime : Nat := 2 ^ 30

/-- No window is larger. -/
def windowLimit : Nat := 2 ^ 28

theorem lifetime_eq : lifetime = 2 ^ 30 := rfl

theorem windowLimit_eq : windowLimit = 2 ^ 28 := rfl

/-- The datagram is not out of date. -/
def Fresh (e : Endpoint) (d : Datagram) : Prop := e.log.length ≤ d.numbered + lifetime ∧ e.taken ≤ d.taken + lifetime

instance (e : Endpoint) (d : Datagram) : Decidable (Fresh e d) := inferInstanceAs (Decidable (_ ∧ _))

def Allowed (s : Session) (b : Bool) : Act → Prop
  | .deliver i => ∀ d ∈ (s.wire (!b))[i]?, Fresh (s.ends (!b)) d
  | .wndsize _ rcvwnd => rcvwnd.toInt ≤ windowLimit
  | _ => True

instance (s : Session) (b : Bool) : (act : Act) → Decidable (s.Allowed b act)
  | .deliver i => inferInstanceAs (Decidable (∀ d ∈ (s.wire (!b))[i]?, Fresh (s.ends (!b)) d))
  | .wndsize _ rcvwnd => inferInstanceAs (Decidable (rcvwnd.toInt ≤ windowLimit))
  | .send _ | .recv _ | .update _ | .flush | .nodelay .. | .minrto _ => isTrue trivial

inductive Run : Session → Prop where
  | start (conv : Guid) (mtu : Bool → Int32) : Run (start conv mtu)
  | step {s : Session} (b : Bool) (act : Act) (before : Run s) (allowed : s.Allowed b act) : Run (s.step b act)

/-- Steps one after the other. -/
def perform : Session → List (Bool × Act) → Session
  | s, [] => s
  | s, (b, act) :: acts => (s.step b act).perform acts

def Permits : Session → List (Bool × Act) → Prop
  | _, [] => True
  | s, (b, act) :: acts => s.Allowed b act ∧ (s.step b act).Permits acts

instance decidablePermits : (s : Session) → (acts : List (Bool × Act)) → Decidable (s.Permits acts)
  | _, [] => isTrue trivial
  | s, (b, act) :: acts =>
    have := decidablePermits (s.step b act) acts
    inferInstanceAs (Decidable (s.Allowed b act ∧ (s.step b act).Permits acts))

theorem Run.perform {s : Session} (run : Run s) {acts : List (Bool × Act)} (permits : s.Permits acts) : Run (s.perform acts) := by
  induction acts generalizing s with
  | nil => exact run
  | cons act acts ih => exact ih (run.step act.1 act.2 permits.1) permits.2

end Session

end Xxlib.Kcp
