import KasmVNC.Lib.Wire
import Mathlib.Data.List.GetD

/-!
# WebSocket frames to the VNC server

`do_proxy` takes what a browser sends out of its WebSocket frames and hands it on to the
VNC server. It reads into `tin_buf`, `decode_hybi` decodes all frames that are there as a
whole into `tout_buf`, and what is left of `tin_buf` is moved to its start. As long as
`tout_buf` has not been sent on, nothing more is read. `select` looks at the socket, and
under TLS the socket does not show what `SSL_read` has decrypted and kept.

The other direction has buffers of its own. The older protocol is left out, and so are errors of
the sockets.
-/

namespace KasmVNC.Network

open KasmVNC.Lib

abbrev BUFSIZE : ℕ := 65536

abbrev OPCODE_TEXT : BitVec 32 := 0x01

abbrev OPCODE_BINARY : BitVec 32 := 0x02

abbrev opcodeClose : BitVec 32 := 0x8

/-! ## Decoding -/

/-- What `decode_hybi` reads from the header of a frame. -/
structure HybiHeader where
  opcode : BitVec 32
  masked : Bool
  /-- The seven bits that may be a length. -/
  code : ℕ
  hdr_length : ℕ
  payload_length : ℕ

/-- The header in memory. Not all of it has to have arrived. -/
def hybiHeader (frame : List Byte) : HybiHeader :=
  let code := (frame.getD 1 0 &&& 0x7f).toNat
  { opcode := (frame.getD 0 0 &&& 0x0f).setWidth 32
    masked := frame.getD 1 0 &&& 0x80 ≠ 0
    code
    hdr_length := if code < 126 then 2 else 4
    payload_length :=
      if code < 126 then code else (frame.getD 2 0).toNat * 256 + (frame.getD 3 0).toNat }

/-- The bytes of the header with the mask. -/
def HybiHeader.start (h : HybiHeader) : ℕ := h.hdr_length + if h.masked then 4 else 0

/-- `payload[i] ^= mask[i%4]` -/
def unmask (mask payload : List Byte) : List Byte :=
  payload.mapIdx fun i b => b ^^^ mask.getD (i % 4) 0

/-- How `decode_hybi` ends. `left` is the number of bytes it has not used. -/
inductive Decoded
  | error
  | done (target : List Byte) (opcode : BitVec 32) (left : ℕ)
deriving DecidableEq

section Decode

variable (b64_pton : List Byte → Option (List Byte)) (stale : List Byte)

/-- The loop over the frames. `stale` is what `tin_buf` holds behind the bytes that have
arrived. A turn uses two bytes at least. -/
def decodeFrames : ℕ → List Byte → BitVec 32 → List Byte → Decoded
  | 0, frame, opcode, target => .done target opcode frame.length
  | turns + 1, frame, opcode, target =>
    let remaining := frame.length
    if remaining < 2 then .done target opcode remaining
    else
      let h := hybiHeader (frame ++ stale)
      if h.opcode = opcodeClose then .done target h.opcode remaining
      else if h.code = 127 then .error
      else if h.start + h.payload_length > remaining then .done target h.opcode remaining
      else
        let payload := (frame.drop h.start).take h.payload_length
        let next := frame.drop (h.start + h.payload_length)
        if h.opcode ≠ OPCODE_TEXT ∧ h.opcode ≠ OPCODE_BINARY then
          decodeFrames turns next h.opcode target
        else if h.payload_length = 0 then decodeFrames turns next h.opcode target
        else if ¬h.masked then .error
        else
          let data := unmask ((frame.drop h.hdr_length).take 4) payload
          match if h.opcode &&& OPCODE_TEXT ≠ 0 then b64_pton data else some data with
          | none => .error
          | some data => decodeFrames turns next h.opcode (target ++ data)

/-- `decode_hybi`, which leaves `opcode` alone if there is no frame to look at. -/
def decode_hybi (src : List Byte) (opcode : BitVec 32) : Decoded :=
  decodeFrames b64_pton stale (src.length + 1) src opcode []

end Decode

/-! ## The proxy -/

inductive ProxyExit
  | closeFrame
  | clientClosed
  | decodingError
deriving DecidableEq, Repr

/-- The variables of `do_proxy`, and the bytes before and behind them. -/
structure Proxy where
  /-- `ctx->ssl` -/
  tls : Bool
  /-- What the client has sent and nobody has taken from the socket yet. -/
  wire : List Byte
  /-- The rest of a record of TLS, decrypted and not yet read. -/
  pending : List Byte := []
  /-- `tin_buf` up to `tin_end` -/
  tin_buf : List Byte := []
  /-- Without a value at first. -/
  opcode : BitVec 32
  /-- `tout_buf` from `tout_start` to `tout_end` -/
  tout_buf : List Byte := []
  /-- What the VNC server has been sent. -/
  sent : List Byte := []
  exit : Option ProxyExit := none
deriving DecidableEq

/-- What happens in a turn of the loop: the server takes some bytes, or bytes come from
the client, one at least and `n` more at most. Under TLS these are the next record. -/
inductive ProxyEvent
  | send (n : ℕ)
  | recv (n : ℕ) (stale : List Byte)

namespace Proxy

/-- `ws_recv`, with as much room as `tin_buf` has. `SSL_read` gives what it has kept before
it decrypts another record. -/
def ws_recv (p : Proxy) (n : ℕ) : List Byte × Proxy :=
  let room := BUFSIZE - 1 - p.tin_buf.length
  if ¬p.tls then
    (p.wire.take (min (n + 1) room), { p with wire := p.wire.drop (min (n + 1) room) })
  else if p.pending ≠ [] then
    (p.pending.take room, { p with pending := p.pending.drop room })
  else
    let record := p.wire.take (n + 1)
    (record.take room, { p with wire := p.wire.drop (n + 1), pending := record.drop room })

/-- Reading from the client. -/
def receive (b64_pton : List Byte → Option (List Byte)) (n : ℕ) (stale : List Byte) (p : Proxy) :
    Proxy :=
  let (bytes, p) := p.ws_recv n
  if bytes = [] then { p with exit := some .clientClosed }
  else
    let tin_buf := p.tin_buf ++ bytes
    match decode_hybi b64_pton stale tin_buf p.opcode with
    | .error => { p with tin_buf := tin_buf, exit := some .decodingError }
    | .done target opcode left =>
      if opcode = opcodeClose then
        { p with tin_buf := tin_buf, opcode := opcode, exit := some .closeFrame }
      else
        { p with
          tin_buf := tin_buf.drop (tin_buf.length - left)
          opcode := opcode
          tout_buf := target }

/-- One turn of the loop in `do_proxy`. The client is only read from if there is nothing to
send on, and something has come at the socket. -/
def step (b64_pton : List Byte → Option (List Byte)) (p : Proxy) : ProxyEvent → Proxy
  | .send n =>
    if p.exit.isSome then p
    else { p with sent := p.sent ++ p.tout_buf.take n, tout_buf := p.tout_buf.drop n }
  | .recv n stale =>
    if p.exit.isSome ∨ p.tout_buf ≠ [] ∨ p.wire = [] then p
    else p.receive b64_pton n stale

end Proxy

/-! ## What a browser sends -/

inductive FrameKind
  | binary
  | continuation
  | ping
  | pong
deriving DecidableEq, Repr

namespace FrameKind

def opcode : FrameKind → Byte
  | binary => 0x2
  | continuation => 0x0
  | ping => 0x9
  | pong => 0xa

/-- Frames that carry the data of a message. -/
def isData : FrameKind → Bool
  | binary | continuation => true
  | _ => false

end FrameKind

/-- A masked frame. Only the last frame of a message is final, and the payload of a
control frame is short. -/
structure ClientFrame where
  kind : FrameKind
  fin : Bool := true
  mask : List Byte
  payload : List Byte
  mask_length : mask.length = 4 := by rfl
  payload_length : payload.length ≤ if kind.isData then 65535 else 125 := by decide

namespace ClientFrame

/-- The length, in the shortest way. -/
def lengthBytes (n : ℕ) : List Byte :=
  if n ≤ 125 then [0x80 ||| BitVec.ofNat 8 n]
  else (0x80 ||| 126) :: be16 (BitVec.ofNat 16 n)

def firstByte (f : ClientFrame) : Byte := (if f.fin then 0x80 else 0) ||| f.kind.opcode

def bytes (f : ClientFrame) : List Byte :=
  f.firstByte :: (lengthBytes f.payload.length ++ (f.mask ++ unmask f.mask f.payload))

/-- What the frame has for the VNC server. -/
def data (f : ClientFrame) : List Byte := if f.kind.isData then f.payload else []

end ClientFrame

/-- A final close frame, with whatever comes behind its first byte. -/
structure CloseFrame where
  rest : List Byte
  nonempty : rest ≠ [] := by decide

/-- All the client sends: frames, and perhaps a close frame. -/
structure ClientStream where
  frames : List ClientFrame
  close : Option CloseFrame := none

namespace ClientStream

def closeBytes (c : ClientStream) : List Byte :=
  match c.close with
  | some frame => 0x88 :: frame.rest
  | none => []

def bytes (c : ClientStream) : List Byte :=
  c.frames.flatMap ClientFrame.bytes ++ c.closeBytes

end ClientStream

end KasmVNC.Network
