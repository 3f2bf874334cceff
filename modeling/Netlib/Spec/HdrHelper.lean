import Netlib.Lib.OnesComplement
import Netlib.Spec.Buffer

/-!
# Protocol headers (`socket/hdr_helper.hpp`, `socket/pro_hdr.hpp`)

`CheckSum` adds the 16-bit words of a message and puts the carries off to the end. The
setters and getters of a header convert its words between host and network order. The host
is little-endian.
-/

namespace Netlib

open Lib

/-- The bytes of a 16-bit word in memory (little-endian host). -/
def le16 (n : ℕ) : List Byte := [.ofNat n, .ofNat (n / 2 ^ 8)]

/-- The 16-bit word whose bytes in memory are given (little-endian host). -/
def ofLe16 : List Byte → ℕ
  | [a, b] => a.toNat + 2 ^ 8 * b.toNat
  | _ => 0

/-- `::htons`: the word whose bytes in memory are the big-endian bytes of `n`. -/
def htons (n : ℕ) : ℕ := ofLe16 (le16 n).reverse

/-- `::ntohs`. -/
def ntohs (n : ℕ) : ℕ := ofLe16 (le16 n).reverse

namespace HdrHelper

/-- `while (liLeft > 1)` in `CheckSum`: the memory from `pW` on, `liLeft` and `liSum` at its
end. -/
def checkSumLoop : List Byte → ℤ → ℕ → List Byte × ℤ × ℕ
  | a :: b :: pW, liLeft, liSum =>
    if liLeft > 1 then checkSumLoop pW (liLeft - 2) (u32 (liSum + ofLe16 [a, b]))
    else (a :: b :: pW, liLeft, liSum)
  | pW, liLeft, liSum => (pW, liLeft, liSum)

/-- `liSum` with all words, where `pAddr` is the memory from there on. -/
def accumulate (pAddr : List Byte) (aiLen : ℤ) : ℕ :=
  let (pW, liLeft, liSum) := checkSumLoop pAddr aiLen 0
  -- the last byte is the low one of `liAnswer`
  if liLeft = 1 then u32 (liSum + ofLe16 [pW.headD 0, 0]) else liSum

/-- The two foldings of `liSum`. -/
def foldSum (liSum : ℕ) : ℕ :=
  let liSum := u32 ((liSum >>> 16) + (liSum &&& 0xffff))
  u32 (liSum + liSum >>> 16)

def checkSum (pAddr : List Byte) (aiLen : ℤ) : ℕ :=
  (2 ^ 32 - 1 - foldSum (accumulate pAddr aiLen)) % 2 ^ 16

/-- A getter of the word at `i` of the header. -/
def getWord (i : ℕ) (pBuf : List Byte) : ℕ := ntohs (ofLe16 ((pBuf.drop i).take 2))

/-- A setter of the word at `i` of the header. -/
def setWord (i aiVal : ℕ) (pBuf : List Byte) : List Byte := memcpy pBuf i (le16 (htons aiVal))

end HdrHelper

namespace IpHdrHelper

/-- The offset of `CheckSum` in `ip_hdr_t`. -/
def checkSumAt : ℕ := 10

def getCheckSum (pBuf : List Byte) : ℕ := HdrHelper.getWord checkSumAt pBuf

def setCheckSum (aiSum : ℕ) (pBuf : List Byte) : List Byte :=
  HdrHelper.setWord checkSumAt aiSum pBuf

end IpHdrHelper

namespace IcmpHdrHelper

/-- The offset of `CheckSum` in `icmp_hdr_t`. -/
def checkSumAt : ℕ := 2

def getCheckSum (pBuf : List Byte) : ℕ := HdrHelper.getWord checkSumAt pBuf

def setCheckSum (aiSum : ℕ) (pBuf : List Byte) : List Byte :=
  HdrHelper.setWord checkSumAt aiSum pBuf

end IcmpHdrHelper

/-! ## The Internet checksum -/

namespace HdrHelper

/-- The little-endian words of a byte string, with a zero byte after an odd one. -/
def leWords : List Byte → List ℕ
  | a :: b :: bs => ofLe16 [a, b] :: leWords bs
  | [a] => [ofLe16 [a, 0]]
  | [] => []

/-- **The Internet checksum**: the bitwise complement of the one's-complement sum. -/
def internetChecksum (bs : List Byte) : ℕ :=
  2 ^ 16 - 1 - OnesComplement.sum (2 ^ 16 - 1) (leWords bs)

end HdrHelper

/-- A header with a checksum. -/
inductive HdrKind
  | ip
  | icmp
  deriving DecidableEq

namespace HdrKind

def checkSumAt : HdrKind → ℕ
  | ip => IpHdrHelper.checkSumAt
  | icmp => IcmpHdrHelper.checkSumAt

def getCheckSum : HdrKind → List Byte → ℕ
  | ip => IpHdrHelper.getCheckSum
  | icmp => IcmpHdrHelper.getCheckSum

def setCheckSum : HdrKind → ℕ → List Byte → List Byte
  | ip => IpHdrHelper.setCheckSum
  | icmp => IcmpHdrHelper.setCheckSum

/-- An IP header, or an ICMP message, of even length. -/
def Whole : HdrKind → List Byte → Prop
  | ip, buf => buf.length % 2 = 0 ∧ 20 ≤ buf.length ∧ buf.length ≤ 60
  | icmp, buf => buf.length % 2 = 0 ∧ 4 ≤ buf.length ∧ buf.length ≤ 65534

variable (k : HdrKind) (buf : List Byte)

/-- `SetCheckSum(0)`. -/
def cleared : List Byte := k.setCheckSum 0 buf

/-- `CheckSum(buf, len)` after it. -/
def computed : ℕ := HdrHelper.checkSum (k.cleared buf) (k.cleared buf).length

/-- `SetCheckSum(0)`, then `SetCheckSum(CheckSum(buf, len))`. -/
def stored : List Byte := k.setCheckSum (k.computed buf) (k.cleared buf)

/-- **The stored checksum verifies**, and the getter returns what the setters got. -/
def Verifies : Prop :=
  HdrHelper.checkSum (k.stored buf) (k.stored buf).length = 0 ∧
    k.getCheckSum (k.cleared buf) = 0 ∧ k.getCheckSum (k.stored buf) = k.computed buf

/-- The words of the message but the one of the checksum. -/
def otherWords : List ℕ := (HdrHelper.leWords buf).eraseIdx (k.checkSumAt / 2)

end HdrKind

end Netlib
