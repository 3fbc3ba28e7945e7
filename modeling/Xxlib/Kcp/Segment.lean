import Mathlib.Data.List.Basic
import Xxlib.Lib.SerialNumbers

/-! The segments of KCP and their bytes: `ikcp_encode_seg` and the decoding functions (`ikcp.h`, `ikcp.cpp`).

The conversation is a `Guid` of 16 bytes, so a header takes 36.
-/

set_option autoImplicit false

namespace Xxlib.Kcp

open Lib (byteAt)

structure Guid where
  bytes : List UInt8
  size : bytes.length = 16
  deriving DecidableEq

/-- `Guid(false)` -/
def Guid.zero : Guid := ⟨List.replicate 16 0, rfl⟩

/-- `IKCPSEG`. Its `len` is the number of its data. -/
structure Ikcpseg where
  conv : Guid
  cmd : UInt32
  frg : UInt32
  wnd : UInt32
  ts : UInt32
  sn : UInt32
  una : UInt32
  resendts : UInt32 := 0
  rto : UInt32 := 0
  fastack : UInt32 := 0
  xmit : UInt32 := 0
  data : List UInt8
  deriving DecidableEq

def ikcpCmdPush : UInt32 := 81
def ikcpCmdAck : UInt32 := 82
def ikcpCmdWask : UInt32 := 83
def ikcpCmdWins : UInt32 := 84

/-! ## Encoding -/

def ikcpEncode8u (c : UInt8) : List UInt8 := [c]

def ikcpEncode16u (w : UInt16) : List UInt8 := [UInt8.ofNat w.toNat, UInt8.ofNat (w.toNat / 256)]

def ikcpEncode32u (l : UInt32) : List UInt8 :=
  [UInt8.ofNat l.toNat, UInt8.ofNat (l.toNat / 256), UInt8.ofNat (l.toNat / 65536), UInt8.ofNat (l.toNat / 16777216)]

def ikcpEncodeGuid (l : Guid) : List UInt8 := l.bytes

/-- The header, which the data follow. -/
def ikcpEncodeSeg (seg : Ikcpseg) : List UInt8 :=
  ikcpEncodeGuid seg.conv ++ (ikcpEncode8u seg.cmd.toUInt8 ++ (ikcpEncode8u seg.frg.toUInt8 ++ (ikcpEncode16u seg.wnd.toUInt16 ++
    (ikcpEncode32u seg.ts ++ (ikcpEncode32u seg.sn ++ (ikcpEncode32u seg.una ++ ikcpEncode32u (UInt32.ofNat seg.data.length)))))))

/-! ## Decoding -/

def ikcpDecode8u (p : List UInt8) : UInt8 := UInt8.ofNat (byteAt p 0)

def ikcpDecode16u (p : List UInt8) : UInt16 := UInt16.ofNat (byteAt p 0 + 256 * byteAt p 1)

def ikcpDecode32u (p : List UInt8) : UInt32 :=
  UInt32.ofNat (byteAt p 0 + 256 * byteAt p 1 + 65536 * byteAt p 2 + 16777216 * byteAt p 3)

/-- What `ikcp_input` decodes: the fields of a segment, the data of which it has not copied yet. -/
structure Header where
  conv : List UInt8
  cmd : UInt8
  frg : UInt8
  wnd : UInt16
  ts : UInt32
  sn : UInt32
  una : UInt32
  len : UInt32
  deriving DecidableEq

/-- The fields at the front of what `p` points to. -/
def ikcpDecodeHeader (p : List UInt8) : Header where
  conv := p.take 16
  cmd := ikcpDecode8u (p.drop 16)
  frg := ikcpDecode8u (p.drop 17)
  wnd := ikcpDecode16u (p.drop 18)
  ts := ikcpDecode32u (p.drop 20)
  sn := ikcpDecode32u (p.drop 24)
  una := ikcpDecode32u (p.drop 28)
  len := ikcpDecode32u (p.drop 32)

/-- The bytes of a header. -/
def headerSize : Nat := 36

/-! ## What was encoded is decoded -/

section
variable (tail : List UInt8)

@[simp] theorem decode8u_encode8u (c : UInt8) : ikcpDecode8u (ikcpEncode8u c ++ tail) = c := by
  simp [ikcpDecode8u, ikcpEncode8u, byteAt]

@[simp] theorem decode16u_encode16u (w : UInt16) : ikcpDecode16u (ikcpEncode16u w ++ tail) = w := by
  have small := w.toNat_lt
  apply UInt16.toNat_inj.mp
  simp only [ikcpDecode16u, ikcpEncode16u, byteAt, List.cons_append, List.getD_cons_zero, List.getD_cons_succ,
    UInt8.toNat_ofNat', UInt16.toNat_ofNat']
  omega

@[simp] theorem decode32u_encode32u (l : UInt32) : ikcpDecode32u (ikcpEncode32u l ++ tail) = l := by
  have small := l.toNat_lt
  apply UInt32.toNat_inj.mp
  simp only [ikcpDecode32u, ikcpEncode32u, byteAt, List.cons_append, List.getD_cons_zero, List.getD_cons_succ,
    UInt8.toNat_ofNat', UInt32.toNat_ofNat']
  omega

end

theorem length_ikcpEncodeSeg (seg : Ikcpseg) : (ikcpEncodeSeg seg).length = headerSize := by
  simp [ikcpEncodeSeg, ikcpEncodeGuid, ikcpEncode8u, ikcpEncode16u, ikcpEncode32u, seg.conv.size, headerSize]

/-- The fields of a segment as a header carries them. -/
def Ikcpseg.header (seg : Ikcpseg) : Header where
  conv := seg.conv.bytes
  cmd := seg.cmd.toUInt8
  frg := seg.frg.toUInt8
  wnd := seg.wnd.toUInt16
  ts := seg.ts
  sn := seg.sn
  una := seg.una
  len := UInt32.ofNat seg.data.length

theorem decodeHeader_encodeSeg (seg : Ikcpseg) (tail : List UInt8) :
    ikcpDecodeHeader (ikcpEncodeSeg seg ++ tail) = seg.header := by
  have guid : seg.conv.bytes.length = 16 := seg.conv.size
  have first : (ikcpEncodeSeg seg ++ tail).take 16 = seg.conv.bytes := by
    rw [ikcpEncodeSeg, List.append_assoc, ikcpEncodeGuid]
    exact List.take_left' guid
  have rest (k : Nat) : (ikcpEncodeSeg seg ++ tail).drop (16 + k) =
      (ikcpEncode8u seg.cmd.toUInt8 ++ (ikcpEncode8u seg.frg.toUInt8 ++ (ikcpEncode16u seg.wnd.toUInt16 ++
        (ikcpEncode32u seg.ts ++ (ikcpEncode32u seg.sn ++ (ikcpEncode32u seg.una ++
          (ikcpEncode32u (UInt32.ofNat seg.data.length) ++ tail))))))).drop k := by
    simp only [ikcpEncodeSeg, ikcpEncodeGuid, List.append_assoc]
    rw [← guid, List.drop_length_add_append]
  unfold ikcpDecodeHeader Ikcpseg.header
  congr 1
  · exact (congrArg ikcpDecode8u (rest 0)).trans (decode8u_encode8u _ _)
  · exact (congrArg ikcpDecode8u (rest 1)).trans (decode8u_encode8u _ _)
  · exact (congrArg ikcpDecode16u (rest 2)).trans (decode16u_encode16u _ _)
  · exact (congrArg ikcpDecode32u (rest 4)).trans (decode32u_encode32u _ _)
  · exact (congrArg ikcpDecode32u (rest 8)).trans (decode32u_encode32u _ _)
  · exact (congrArg ikcpDecode32u (rest 12)).trans (decode32u_encode32u _ _)
  · exact (congrArg ikcpDecode32u (rest 16)).trans (decode32u_encode32u _ _)

end Xxlib.Kcp
