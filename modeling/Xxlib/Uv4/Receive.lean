import Xxlib.Uv4.Bytes

/-! Packages on a stream: the `Send` family of `UvTcpUdpBase` and `ReceiveImpl`
(`xx_uv.hpp`, `xx_uv.cpp`).

A package is a mask byte, a length of two or four bytes, and the data: an address for
the router, a serial number for remote calls, and the payload.
-/

set_option autoImplicit false

namespace Xxlib.Uv4

open Lib

/-! ## Sending -/

/-- The bytes that are passed to `SendBytes`, with the mask byte for short and for big packages. -/
def packageBytes (mask bigMask : Nat) (data : List UInt8) : List UInt8 :=
  let dataLen := data.length
  if dataLen ≤ 65535 then
    UInt8.ofNat mask :: UInt8.ofNat dataLen :: UInt8.ofNat (dataLen >>> 8) :: data
  else
    UInt8.ofNat bigMask :: UInt8.ofNat dataLen :: UInt8.ofNat (dataLen >>> 8) ::
      UInt8.ofNat (dataLen >>> 16) :: UInt8.ofNat (dataLen >>> 24) :: data

def send (pkg : List UInt8) : List UInt8 := packageBytes 0 0b00000100 pkg

def sendRequest (serial : UInt32) (pkg : List UInt8) : List UInt8 :=
  packageBytes 0b00000001 0b00000101 (varWrite7 serial ++ pkg)

def sendResponse (serial : UInt32) (pkg : List UInt8) : List UInt8 :=
  packageBytes 0b00000010 0b00000110 (varWrite7 serial ++ pkg)

def sendRouting (serviceAddr pkg : List UInt8) : List UInt8 :=
  packageBytes (0b00001000 ||| (serviceAddr.length - 1) <<< 4) (0b00001100 ||| (serviceAddr.length - 1) <<< 4)
    (serviceAddr ++ pkg)

def sendRoutingRequest (serviceAddr : List UInt8) (serial : UInt32) (pkg : List UInt8) : List UInt8 :=
  packageBytes (0b00001001 ||| (serviceAddr.length - 1) <<< 4) (0b00001101 ||| (serviceAddr.length - 1) <<< 4)
    (serviceAddr ++ (varWrite7 serial ++ pkg))

def sendRoutingResponse (serviceAddr : List UInt8) (serial : UInt32) (pkg : List UInt8) : List UInt8 :=
  packageBytes (0b00001010 ||| (serviceAddr.length - 1) <<< 4) (0b00001110 ||| (serviceAddr.length - 1) <<< 4)
    (serviceAddr ++ (varWrite7 serial ++ pkg))

/-- A call of one of the six. -/
inductive SendCall where
  | send (pkg : List UInt8)
  | sendRequest (pkg : List UInt8)
  | sendResponse (serial : UInt32) (pkg : List UInt8)
  | sendRouting (serviceAddr pkg : List UInt8)
  | sendRoutingRequest (serviceAddr pkg : List UInt8)
  | sendRoutingResponse (serviceAddr : List UInt8) (serial : UInt32) (pkg : List UInt8)

/-- What a call sends, and the last serial number that `rpcMgr->Register` gave out. -/
def SendCall.run (serial : UInt32) : SendCall → List UInt8 × UInt32
  | .send pkg => (Uv4.send pkg, serial)
  | .sendRequest pkg => (Uv4.sendRequest (serial + 1) pkg, serial + 1)
  | .sendResponse s pkg => (Uv4.sendResponse s pkg, serial)
  | .sendRouting addr pkg => (Uv4.sendRouting addr pkg, serial)
  | .sendRoutingRequest addr pkg => (Uv4.sendRoutingRequest addr (serial + 1) pkg, serial + 1)
  | .sendRoutingResponse addr s pkg => (Uv4.sendRoutingResponse addr s pkg, serial)

/-- What a sequence of calls sends. -/
def sendAll (serial : UInt32) : List SendCall → List (List UInt8)
  | [] => []
  | call :: calls => (call.run serial).1 :: sendAll (call.run serial).2 calls

/-! ## Receiving -/

/-- `size_t` arithmetic, in 64 bits. -/
def size (n : Nat) : Nat := n % 2 ^ 64

/-- The conversion of an `int`, or of a difference, to `size_t`. -/
def sizeOfInt (n : Int) : Nat := (n % 2 ^ 64).toNat

/-- `bbRecv` and `senderAddress` as a handler finds them. -/
structure View where
  offset : Nat
  offsetRoot : Nat
  readLengthLimit : Nat
  senderAddress : List UInt8
  deriving DecidableEq

/-- A call of a handler. -/
inductive Event where
  | package (view : View)
  | request (serial : Nat) (view : View)
  | callback (serial : Nat) (view : View)
  | routing (offset pkgLen addrOffset addrLen : Nat)
  deriving DecidableEq

/-- `isReceiver`: `routingAddress` is not empty. `disconnected`: what `Disconnected()` answers after an
event. -/
structure Peer where
  isReceiver : Bool
  disconnected : Bool

/-- `dataLen` of a short header. -/
def shortLen (buf : List UInt8) (offset : Nat) : Nat := byteAt buf (offset + 1) + byteAt buf (offset + 2) <<< 8

/-- `dataLen` of a big header. The upper half is an `int`, which is extended to a `size_t`. -/
def bigLen (buf : List UInt8) (offset : Nat) : Nat :=
  size (shortLen buf offset +
    sizeOfInt (Int.bmod (byteAt buf (offset + 3) <<< 16 + byteAt buf (offset + 4) <<< 24 : Nat) (2 ^ 32)))

/-- The header at `offset`: not complete, invalid, or that of a package that is there as a whole. -/
inductive Header where
  | short
  | invalid
  | whole (headerLen dataLen : Nat)

/-- From the loop's condition to the check of the length. -/
def readHeader (buf : List UInt8) (offset : Nat) : Header :=
  if size (offset + 3) ≤ buf.length then
    let big := 0 < byteAt buf offset &&& 0x4
    if big ∧ size (offset + 5) > buf.length then .short
    else
      let headerLen : Nat := if big then 5 else 3
      let dataLen := if big then bigLen buf offset else shortLen buf offset
      if dataLen = 0 then .invalid
      else if size (offset + headerLen + dataLen) > buf.length then .short
      else .whole headerLen dataLen
  else .short

/-- The handlers a package causes to be called, and whether the loop goes on. `offset` is behind the
header. -/
def dispatch (peer : Peer) (buf : List UInt8) (pkgOffset headerLen dataLen : Nat) (sender : List UInt8) :
    Bool × List UInt8 × List Event :=
  let typeId := byteAt buf pkgOffset
  let offset := size (pkgOffset + headerLen)
  let routed := 0 < typeId &&& 8
  let addrLen := if routed then (typeId >>> 4) + 1 else 0
  if routed ∧ peer.isReceiver = false then
    (!peer.disconnected, sender, [.routing pkgOffset (sizeOfInt (offset + dataLen - pkgOffset)) offset addrLen])
  else
    let sender := if routed then (buf.drop offset).take addrLen else []
    let view (cursor : Nat) : View := ⟨cursor, pkgOffset, size (offset + dataLen), sender⟩
    let start := size (offset + addrLen)
    let pkgType := typeId &&& 3
    if pkgType = 0 then (!peer.disconnected, sender, [.package (view start)])
    else
      match varRead7 buf start with
      | .error _ => (false, sender, [])
      | .ok (serial, cursor) =>
          if pkgType = 1 then (!peer.disconnected, sender, [.request serial (view cursor)])
          else if pkgType = 2 then (!peer.disconnected, sender, [.callback serial (view cursor)])
          else (true, sender, [])

/-- What a call of `ReceiveImpl` leaves. The content of `bbRecv` is `none` if the call gave up the
connection or cleared the buffer. -/
structure Received where
  events : List Event
  bbRecv : Option (List UInt8)
  senderAddress : List UInt8

inductive Round where
  | finish
  | leave (sender : List UInt8) (events : List Event)
  | next (offset : Nat) (sender : List UInt8) (events : List Event)

/-- One round of the loop. -/
def round (peer : Peer) (buf : List UInt8) (offset : Nat) (sender : List UInt8) : Round :=
  match readHeader buf offset with
  | .short => .finish
  | .invalid => .leave sender []
  | .whole headerLen dataLen =>
      match dispatch peer buf offset headerLen dataLen sender with
      | (false, sender, events) => .leave sender events
      | (true, sender, events) => .next (size (size (offset + headerLen) + dataLen)) sender events

/-- The loop; `none` if it takes more than `fuel` rounds. -/
def receiveLoop (peer : Peer) (buf : List UInt8) : Nat → Nat → List UInt8 → Option Received
  | 0, _, _ => none
  | fuel + 1, offset, sender =>
      match round peer buf offset sender with
      | .finish => some ⟨[], some (buf.drop offset), sender⟩
      | .leave sender events => some ⟨events, none, sender⟩
      | .next offset sender events =>
          (receiveLoop peer buf fuel offset sender).map fun rest =>
            { rest with events := events ++ rest.events }

def receiveImpl (peer : Peer) (fuel : Nat) (bbRecv senderAddress chunk : List UInt8) : Option Received :=
  receiveLoop peer (bbRecv ++ chunk) fuel 0 senderAddress

end Xxlib.Uv4
