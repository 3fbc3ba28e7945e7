import Xxlib.Lib.Bytes
import Xxlib.Go.BBuffer

/-! `TcpPeer`: frames on a connection (`xx_tcppeer.go`).

A frame is a type byte, a length of two or four bytes, and the data: a serial number for
requests and responses, and a root object. Only what a peer needs for sending and receiving
frames is modelled here.
-/

set_option autoImplicit false

namespace Xxlib.Go

open Lib (byteAt)

/-- `typeId` is 0 for a package, 1 for a request, 2 for a response. -/
structure NetMessage where
  typeId : Nat
  serial : Int32
  pkg : IObject
  deriving DecidableEq

/-- `sends` is the queue of frames that wait for the connection. -/
structure TcpPeer where
  recvBuf : Slice := {}
  recvBB : BBuffer := {}
  recvs : List NetMessage := []
  sends : List (List UInt8) := []
  closed : Bool := false

structure Process where
  heap : List Obj
  peer : TcpPeer

/-! ## Sending -/

def writeSpaces (count : Nat) : Run Unit := append (List.replicate count 0)

def writeSerial (serial : Int32) : Run Unit := if serial > 0 then writeUInt32 serial.toUInt32 else pure ()

/-- The first part of `sendCore`: what is put on the queue. Five bytes are left for the longer header. -/
def buildFrame (typeId : UInt8) (serial : Int32) (pkg : IObject) : Run (List UInt8) := do
  writeSpaces 5
  writeSerial serial
  writeRoot pkg
  let p := (← get).bb.buf.data
  let dataLen := p.length - 5
  if dataLen ≤ 65535 then
    return (((p.set 2 typeId).set 3 (UInt8.ofNat dataLen)).set 4 (UInt8.ofNat (dataLen >>> 8))).drop 2
  else
    return ((((p.set 0 (typeId ||| (1 : UInt8) <<< 2)).set 1 (UInt8.ofNat dataLen)).set 2 (UInt8.ofNat (dataLen >>> 8))).set 3
      (UInt8.ofNat (dataLen >>> 16))).set 4 (UInt8.ofNat (dataLen >>> 24))

/-- The capacity of `sends`. -/
def sendsCapacity : Nat := 1024

/-- The answer is `true` in any case: the deferred function sets it, also when the frame was queued. -/
def sendCore (typeId : UInt8) (serial : Int32) (pkg : IObject) (process : Process) : Except Panic (Bool × Process) :=
  let peer := process.peer
  if peer.closed then .ok (true, process)
  else
    match buildFrame typeId serial pkg ⟨process.heap, {}⟩ with
    | .error panic _ => .error panic
    | .ok p m =>
        let sends := if peer.sends.length < sendsCapacity then peer.sends ++ [p] else peer.sends
        .ok (true, ⟨m.heap, { peer with sends := sends }⟩)

/-! ## Receiving -/

/-- A shift of a byte keeps its eight bits. -/
def shiftByte (b shift : Nat) : Nat := (b <<< shift) % 2 ^ 8

/-- What a call of `Read` works on, apart from `recvBuf`. -/
structure Reading where
  heap : List Obj
  recvBB : BBuffer
  recvs : List NetMessage

def readSerial (typeId : Nat) : Run Int32 := if typeId > 0 then return (← readUInt32).toInt32 else return 0

def readMessage (typeId : Nat) : Run NetMessage := do
  let serial ← readSerial typeId
  let pkg ← readRoot
  return ⟨typeId, serial, pkg⟩

/-- A round of the loop: its condition is false, `Read` returns from within, or there is a next round. -/
inductive Round where
  | finish
  | leave (hasError : Bool) (state : Reading)
  | next (offset : Nat) (state : Reading)

/-- Whether the header at `offset` has a length of four bytes. -/
def isBig (buf : List UInt8) (offset : Nat) : Bool := byteAt buf offset &&& 4 > 0

def headerLen (buf : List UInt8) (offset : Nat) : Nat := if isBig buf offset then 5 else 3

/-- The upper bytes of a long length are shifted before they are converted to `int`. -/
def dataLen (buf : List UInt8) (offset : Nat) : Nat :=
  byteAt buf (offset + 1) + byteAt buf (offset + 2) <<< 8 +
    if isBig buf offset then shiftByte (byteAt buf (offset + 3)) 16 + shiftByte (byteAt buf (offset + 4)) 24 else 0

/-- A panic is recovered, and `Read` returns `true`. -/
def round (recvBuf : Slice) (offset : Nat) (state : Reading) : Round :=
  let buf := recvBuf.data
  if offset + 3 ≤ buf.length then
    if isBig buf offset ∧ offset + 5 > buf.length then .leave false state
    else if dataLen buf offset ≤ 0 then .leave true state
    else if offset + headerLen buf offset + dataLen buf offset > buf.length then .leave false state
    else
      let bb := { state.recvBB with offset := offset + headerLen buf offset, buf := recvBuf }
      let typeId := byteAt buf offset &&& 3
      if typeId = 3 then .leave true { state with recvBB := bb }
      else
        match readMessage typeId ⟨state.heap, bb⟩ with
        | .error _ m => .leave true { state with heap := m.heap, recvBB := m.bb }
        | .ok message m =>
            .next (offset + headerLen buf offset + dataLen buf offset) ⟨m.heap, m.bb, state.recvs ++ [message]⟩
  else .finish

/-- How the loop ends: behind its last round, or by a return. -/
inductive Loop where
  | finish (offset : Nat) (state : Reading)
  | leave (hasError : Bool) (state : Reading)

/-- The loop; `none` if it takes more than `fuel` rounds. -/
def readLoop (recvBuf : Slice) : Nat → Nat → Reading → Option Loop
  | 0, _, _ => none
  | fuel + 1, offset, state =>
      match round recvBuf offset state with
      | .finish => some (.finish offset state)
      | .leave hasError state => some (.leave hasError state)
      | .next offset state => readLoop recvBuf fuel offset state

/-- What `Conn.Read` gives: the bytes, and whether there is an error that is not temporary. -/
structure ConnRead where
  bytes : List UInt8
  failed : Bool := false

def Process.reading (process : Process) : Reading := ⟨process.heap, process.peer.recvBB, process.peer.recvs⟩

def Process.after (process : Process) (state : Reading) (recvBuf : Slice) : Process :=
  ⟨state.heap, { process.peer with recvBuf := recvBuf, recvBB := state.recvBB, recvs := state.recvs }⟩

/-- Behind the loop, what is left over is copied to `recvBuf[:0]`, which has no room for it. -/
def read (process : Process) (conn : ConnRead) : Option (Bool × Process) :=
  if conn.failed then some (true, process)
  else if conn.bytes.length > 0 then
    let recvBuf := process.peer.recvBuf.append conn.bytes
    (readLoop recvBuf (recvBuf.data.length + 1) 0 process.reading).map fun
      | .finish offset state => (false, process.after state (recvBuf.cut (recvBuf.data.length - offset)))
      | .leave hasError state => (hasError, process.after state recvBuf)
  else some (false, process)

end Xxlib.Go
