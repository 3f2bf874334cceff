import Netlib.Spec.HdrHelper
import Netlib.Spec.Header
import Netlib.Lib.Record

/-!
# The fields of protocol headers (`socket/hdr_helper.hpp`, `socket/pro_hdr.hpp`)

A helper reads and writes the fields of a header in the memory it was given: bytes, words in
network order, and the two halves of the first byte of an IP header. A field stands here for its
getter and its setter. `SetOpt` and `GetOpt` of an echo message are left out.
-/

namespace Netlib

namespace HdrHelper

def getByte (i : ℕ) (pBuf : List Byte) : ℕ := (pBuf.getD i 0).toNat

def setByte (i aiVal : ℕ) (pBuf : List Byte) : List Byte := memcpy pBuf i [.ofNat aiVal]

/-- A getter of a 32-bit word. -/
def getDword (i : ℕ) (pBuf : List Byte) : ℕ := ntohl (ofLe32 ((pBuf.drop i).take 4))

def setDword (i aiVal : ℕ) (pBuf : List Byte) : List Byte := memcpy pBuf i (le32 (htonl aiVal))

/-- `GetVersion`. -/
def getHigh (i : ℕ) (pBuf : List Byte) : ℕ := getByte i pBuf >>> 4

/-- `SetVersion`. -/
def setHigh (i aiVer : ℕ) (pBuf : List Byte) : List Byte :=
  let liVer := (aiVer &&& 0xf) <<< 4
  setByte i ((getByte i pBuf &&& 0xf) ||| liVer) pBuf

/-- `GetHdrLen`. -/
def getLow (i : ℕ) (pBuf : List Byte) : ℕ := (getByte i pBuf &&& 0xf) <<< 2

/-- `SetHdrLen`. -/
def setLow (i aiLen : ℕ) (pBuf : List Byte) : List Byte :=
  let liLen2 := (aiLen >>> 2) &&& 0xf
  setByte i ((getByte i pBuf &&& 0xf0) ||| liLen2) pBuf

end HdrHelper

/-- Where a field lies. -/
inductive HdrField
  | byte (i : ℕ)
  | word (i : ℕ)
  | dword (i : ℕ)
  | high (i : ℕ)
  | low (i : ℕ)
  deriving DecidableEq

namespace HdrField

/-- The getter. -/
def get : HdrField → List Byte → ℕ
  | byte i => HdrHelper.getByte i
  | word i => HdrHelper.getWord i
  | dword i => HdrHelper.getDword i
  | high i => HdrHelper.getHigh i
  | low i => HdrHelper.getLow i

/-- The setter. -/
def set : HdrField → ℕ → List Byte → List Byte
  | byte i => HdrHelper.setByte i
  | word i => HdrHelper.setWord i
  | dword i => HdrHelper.setDword i
  | high i => HdrHelper.setHigh i
  | low i => HdrHelper.setLow i

/-- What the field can hold of a value; a length is in units of 4 bytes. -/
def cut : HdrField → ℕ → ℕ
  | byte _, v => v % 2 ^ 8
  | word _, v => v % 2 ^ 16
  | dword _, v => v % 2 ^ 32
  | high _, v => v % 2 ^ 4
  | low _, v => v / 4 % 2 ^ 4 * 4

end HdrField

/-! ## The headers -/

namespace IpHdrHelper

def version : HdrField := .high 0
def hdrLen : HdrField := .low 0
def tos : HdrField := .byte 1
def totalLen : HdrField := .word 2
def ident : HdrField := .word 4
def fragFlags : HdrField := .word 6
def ttl : HdrField := .byte 8
def protocol : HdrField := .byte 9
def checkSum : HdrField := .word checkSumAt
/-- `TetSrcIp` and `SetSrcIp`. -/
def srcIp : HdrField := .dword 12
def dstIp : HdrField := .dword 16

end IpHdrHelper

namespace IcmpHdrHelper

def type : HdrField := .byte 0
def code : HdrField := .byte 1
def checkSum : HdrField := .word checkSumAt

end IcmpHdrHelper

namespace IcmpEchoHelper

def ident : HdrField := .word 4
def seq : HdrField := .word 6

end IcmpEchoHelper

namespace IcmpTStampHelper

def ident : HdrField := .word 4
def seq : HdrField := .word 6
def reqTime : HdrField := .dword 8
def recvTime : HdrField := .dword 12
def transTime : HdrField := .dword 16

end IcmpTStampHelper

namespace IcmpMaskHelper

def ident : HdrField := .word 4
def seq : HdrField := .word 6
def mask : HdrField := .dword 8

end IcmpMaskHelper

/-- A helper with the fields of its own and of its base class. -/
inductive HdrHelperKind
  | ip
  | icmpEcho
  | icmpTStamp
  | icmpMask
  deriving DecidableEq

namespace HdrHelperKind

open IcmpHdrHelper in
def fields : HdrHelperKind → List HdrField
  | ip =>
    [IpHdrHelper.version, IpHdrHelper.hdrLen, IpHdrHelper.tos, IpHdrHelper.totalLen, IpHdrHelper.ident,
      IpHdrHelper.fragFlags, IpHdrHelper.ttl, IpHdrHelper.protocol, IpHdrHelper.checkSum,
      IpHdrHelper.srcIp, IpHdrHelper.dstIp]
  | icmpEcho => [type, code, checkSum, IcmpEchoHelper.ident, IcmpEchoHelper.seq]
  | icmpTStamp =>
    [type, code, checkSum, IcmpTStampHelper.ident, IcmpTStampHelper.seq, IcmpTStampHelper.reqTime,
      IcmpTStampHelper.recvTime, IcmpTStampHelper.transTime]
  | icmpMask =>
    [type, code, checkSum, IcmpMaskHelper.ident, IcmpMaskHelper.seq, IcmpMaskHelper.mask]

/-- `sizeof` of the header. -/
def size : HdrHelperKind → ℕ
  | ip => 20
  | icmpEcho => 8
  | icmpTStamp => 20
  | icmpMask => 12

variable (k : HdrHelperKind)

/-- The calls of all setters with what the getters return. -/
def read (pBuf : List Byte) : List (HdrField × ℕ) := k.fields.map fun f => (f, f.get pBuf)

/-- **The header is a record**, in the memory `pBuf` and after the calls `calls` of setters. -/
structure Records (pBuf : List Byte) (calls : List (HdrField × ℕ)) : Prop where
  /-- A getter returns what its setter was given last, cut to what fits, or what it did. -/
  value : ∀ f ∈ k.fields, f.get (Lib.setAll HdrField.set calls pBuf) =
    ((Lib.lastSet calls f).map f.cut).getD (f.get pBuf)
  /-- The memory behind the header is as it was. -/
  rest : (Lib.setAll HdrField.set calls pBuf).drop k.size = pBuf.drop k.size
  /-- When every field was set, nothing is left of the header that was there. -/
  whole : (∀ f ∈ k.fields, (Lib.lastSet calls f).isSome) → ∀ pBuf' : List Byte, k.size ≤ pBuf'.length →
    (Lib.setAll HdrField.set calls pBuf').take k.size = (Lib.setAll HdrField.set calls pBuf).take k.size
  /-- What is read from one header and written to another is the whole header. -/
  copy : ∀ pBuf' : List Byte, k.size ≤ pBuf'.length →
    (Lib.setAll HdrField.set (k.read pBuf) pBuf').take k.size = pBuf.take k.size

end HdrHelperKind

end Netlib
