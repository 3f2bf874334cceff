import Netlib.Spec.Header

/-!
# The stream reader (`netio/tsocket_impl.hpp`)

`TcpStreamSocket::_CutMsgPack` cuts the bytes of one read into frames and hands
each payload to `OnReceiveData`. What is left of a frame stays in `msgbuffer`;
`curheader.size = 0` stands for "no header yet". The two variables `buf` and
`tran_byte` of the source are one list, the bytes not consumed yet. The header part
of the loop is also that of `SyncConnector`, which has a smaller limit.
-/

namespace Netlib

variable {σ : Type*}

/-- The user's `OnReceiveData`: any function of its own state and of the buffer it
is handed, which it leaves well formed. -/
structure Receiver (σ : Type*) where
  onReceiveData : σ → Buffer → σ × Buffer
  wf : ∀ u b, b.WF → (onReceiveData u b).2.WF

/-- `_readerinfo_`, without the array that reads fill. -/
structure ReaderInfo where
  msgbuffer : Buffer
  curheader : MessageHeader

def ReaderInfo.fresh : ReaderInfo := ⟨.new, ⟨0, 0⟩⟩

/-- How the header part of the loop ends. -/
inductive HeaderStep
  | more (r : ReaderInfo)
  | reject (r : ReaderInfo) (buf : List Byte)
  | ready (r : ReaderInfo) (buf : List Byte)

/-- `msgbuffer.Read(curheader)`. -/
def ReaderInfo.readHeader (r : ReaderInfo) : ReaderInfo :=
  match r.msgbuffer.read hdrlen with
  | (some l, b) => ⟨b, MessageHeader.ofBytes l⟩
  | (none, b) => { r with msgbuffer := b }

/-- The header part: when there is no header yet, it is completed from `buf`, and its
size is checked against `limit`. -/
def ReaderInfo.header (limit : ℕ) (r : ReaderInfo) (buf : List Byte) : HeaderStep :=
  let datalen := r.msgbuffer.length
  if r.curheader.size = 0 then
    if u32 (buf.length + datalen) < hdrlen then
      .more { r with msgbuffer := r.msgbuffer.write buf buf.length }
    else
      let (r, buf) :=
        if datalen ≥ hdrlen then (r.readHeader, buf)
        else
          ({ r with msgbuffer := r.msgbuffer.write buf (hdrlen - datalen) }.readHeader,
            buf.drop (hdrlen - datalen))
      let r := { r with curheader := r.curheader.n2h }
      if r.curheader.size > limit then .reject r buf else .ready r buf
  else .ready r buf

/-- A reader with the state of the user's callback. -/
structure ReadState (σ : Type*) where
  reader : ReaderInfo
  user : σ

/-- The loop of `_CutMsgPack`. A result is the returned value, the payloads handed
to `OnReceiveData` in order, and the state left; `none` is a loop that is still
running after `fuel` rounds. -/
def TcpStreamSocket._cutMsgPackLoop (io : Receiver σ) :
    ℕ → ReadState σ → List Byte → Option (Bool × List (List Byte) × ReadState σ)
  | 0, _, _ => none
  | fuel + 1, s, buf =>
    match s.reader.header socketPackSize buf with
    | .more r => some (true, [], { s with reader := r })
    | .reject r _ => some (false, [], { s with reader := r })
    | .ready r buf =>
      let datalen := r.msgbuffer.length
      if u32 (buf.length + datalen) < r.curheader.size then
        some (true, [], { s with reader := { r with msgbuffer := r.msgbuffer.write buf buf.length } })
      else
        let n := toU32 (r.curheader.size - datalen)
        let msgbuffer := r.msgbuffer.write buf n
        let (user, msgbuffer') := io.onReceiveData s.user msgbuffer
        -- after the notification the buffer is cleared, whatever the callback left in it
        let r := { r with curheader := { r.curheader with size := 0 }, msgbuffer := msgbuffer'.clear }
        (_cutMsgPackLoop io fuel ⟨r, user⟩ (buf.drop n)).map fun (ok, ps, s') =>
          (ok, msgbuffer.unread :: ps, s')

/-- A buffer as `_CutMsgPack` hands it to `OnReceiveData`: the header of the frame has been
read, the payload has not. -/
structure Handed (b : Buffer) : Prop where
  wf : b.WF
  offset : b._offset = hdrlen

/-- `TcpStreamSocket::_CutMsgPack`. -/
def TcpStreamSocket._cutMsgPack (io : Receiver σ) (s : ReadState σ) (buf : List Byte) :
    Option (Bool × List (List Byte) × ReadState σ) :=
  _cutMsgPackLoop io (buf.length + 1) s buf

end Netlib
