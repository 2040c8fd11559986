import KasmVNC.Lib.Wire

/-!
# The UDP stream

`network::UdpStream` collects what is written to it, and `flush` sends it to the WebRTC
client as one packet, split into pieces of `udpSize` bytes. Its buffer has a fixed size; a
write that does not fit ends the server.
-/

namespace KasmVNC.Network

open KasmVNC.Lib

abbrev UDPSTREAM_BUFSIZE : ℕ := 1024 * 1024

/-- The parameter `udpSize`. -/
structure UdpSize where
  val : ℕ
  ge_min : 500 ≤ val
  le_max : val ≤ 1400

theorem UdpSize.pos (udpSize : UdpSize) : 0 < udpSize.val :=
  Nat.lt_of_lt_of_le (by decide) udpSize.ge_min

/-- What is handed to `WuHostSendBinary`: five words and a piece of the packet. -/
structure Datagram where
  id : BitVec 32
  index : BitVec 32
  pieces : BitVec 32
  hash : BitVec 32
  frame : BitVec 32
  payload : List Byte
deriving DecidableEq

section Udpsend

variable (XXH64 : List Byte → BitVec 64) (udpSize : UdpSize)

/-- `const uint32_t pieces` -/
def pieces (len : ℕ) : ℕ := len / udpSize.val + if len % udpSize.val ≠ 0 then 1 else 0

def datagram (id frame : BitVec 32) (pieces i : ℕ) (piece : List Byte) : Datagram :=
  ⟨id, .ofNat 32 i, .ofNat 32 pieces, (XXH64 piece).setWidth 32, frame, piece⟩

/-- The loop of `udpsend`, with `n` pieces to go; `sends i` tells whether
`WuHostSendBinary` takes the piece `i`. The flag is set if one could not be sent. -/
def sendPieces (sends : ℕ → Bool) (id frame : BitVec 32) (pieces : ℕ) :
    (n i : ℕ) → (data : List Byte) → List Datagram × Bool
  | 0, _, _ => ([], false)
  | n + 1, i, data =>
    let piece := data.take udpSize.val
    if sends i then
      let rest := sendPieces sends id frame pieces n (i + 1) (data.drop udpSize.val)
      (datagram XXH64 id frame pieces i piece :: rest.1, rest.2)
    else ([], true)

/-- `udpsend`: the datagrams that are sent, whether it failed, and the next `id`. -/
def udpsend (sends : ℕ → Bool) (data : List Byte) (id frame : BitVec 32) :
    List Datagram × Bool × BitVec 32 :=
  let n := pieces udpSize data.length
  let sent := sendPieces XXH64 udpSize sends id frame n n 0 data
  (sent.1, sent.2, if sent.2 then id else id + 1)

end Udpsend

/-- `γ` are the clients of the WebRTC host. -/
structure UdpStream (γ : Type*) where
  /-- What has been written since the last flush. -/
  data : List Byte
  client : Option γ
  totalLen : ℕ
  id : BitVec 32
  failed : Bool
  frame : BitVec 32

namespace UdpStream

variable {γ : Type*}

def new : UdpStream γ := ⟨[], none, 0, 0, false, 0⟩

variable (s : UdpStream γ)

def setClient (cli : γ) : UdpStream γ := { s with client := some cli }

def setFrameNumber (frame : BitVec 32) : UdpStream γ := { s with frame := frame }

def clearFailed : UdpStream γ := { s with failed := false }

/-- The writes of `OutStream`. `overrun` ends the server if there is not enough room. -/
def write (bytes : List Byte) : Option (UdpStream γ) :=
  if s.data.length + bytes.length ≤ UDPSTREAM_BUFSIZE then
    some { s with data := s.data ++ bytes }
  else none

theorem write_eq_some {bytes : List Byte} {s' : UdpStream γ} :
    s.write bytes = some s' ↔
      s.data.length + bytes.length ≤ UDPSTREAM_BUFSIZE ∧
        { s with data := s.data ++ bytes } = s' := by
  unfold write
  split <;> simp [*]

/-- `flush`: the datagrams that are sent to the client, and the stream afterwards. -/
def flush (XXH64 : List Byte → BitVec 64) (udpSize : UdpSize) (sends : ℕ → Bool) :
    List Datagram × UdpStream γ :=
  let totalLen := s.totalLen + s.data.length
  match s.client with
  | none => ([], { s with data := [], totalLen })
  | some _ =>
    let (sent, failed, id) := udpsend XXH64 udpSize sends s.data s.id s.frame
    (sent, { s with data := [], totalLen, id, failed := s.failed || failed })

end UdpStream

end KasmVNC.Network
