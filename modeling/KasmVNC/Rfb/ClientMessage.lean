import KasmVNC.Rfb.SMsgReader

/-!
# The wire format of client messages

Each kind of client message with its bytes, independently of any reader: fixed
fields, padding of any content, and lists and texts preceded by their length.
`readMsg` is compared with it: which bytes it consumes, and which calls it makes.
-/

namespace KasmVNC.Rfb

open KasmVNC.Lib KasmVNC.Lib.Reader

/-- Bytes without a meaning. -/
abbrev Padding (n : ℕ) := {bytes : List Byte // bytes.length = n}

structure WirePixelFormat where
  bpp : Byte
  depth : Byte
  bigEndian : Byte
  trueColour : Byte
  redMax : BitVec 16
  greenMax : BitVec 16
  blueMax : BitVec 16
  redShift : Byte
  greenShift : Byte
  blueShift : Byte
  pad : Padding 3

structure WireScreen where
  id : BitVec 32
  x : BitVec 16
  y : BitVec 16
  w : BitVec 16
  h : BitVec 16
  flags : BitVec 32

structure WireClipboard where
  mime : Counted 8 Byte
  data : Counted 32 Byte

inductive ClientMessage
  | setPixelFormat (pad : Padding 3) (pf : WirePixelFormat)
  | setEncodings (pad : Padding 1) (encodings : Counted 16 (BitVec 32))
  | setDesktopSize (pad : Padding 1) (width height : BitVec 16)
      (screens : Counted 8 WireScreen) (pad' : Padding 1)
  | setMaxVideoResolution (width height : BitVec 16)
  | framebufferUpdateRequest (inc : Byte) (x y w h : BitVec 16)
  | enableContinuousUpdates (enable : Byte) (x y w h : BitVec 16)
  | fence (pad : Padding 3) (flags : BitVec 32) (data : Counted 8 Byte)
  | requestStats (pad : Padding 3)
  | frameStats (pad : Padding 3) (all render : BitVec 32)
  | binaryClipboard (entries : Counted 8 WireClipboard)
  | keyEvent (down : Byte) (pad : Padding 2) (key : BitVec 32)
  | pointerEvent (mask x y scrollX scrollY : BitVec 16)
  | clientCutText (pad : Padding 3) (text : Counted 31 Byte)
  /-- The length is sent negated. -/
  | extendedClipboard (pad : Padding 3) (data : List Byte)
      (h : 0 < data.length ∧ data.length ≤ 2 ^ 31)
  | qemuKeyEvent (down : BitVec 16) (keysym keycode : BitVec 32)
  | upgradeToUdp (request : Counted 16 Byte)
  | subscribeUnixRelay (name : Counted 8 Byte)
  | unixRelay (name : Counted 8 Byte) (data : Counted 32 Byte)
  | videoEncoders (encoders : Counted 8 (BitVec 32))
  | keepAlive

def WirePixelFormat.bytes (pf : WirePixelFormat) : List Byte :=
  [pf.bpp] ++ [pf.depth] ++ [pf.bigEndian] ++ [pf.trueColour] ++ be16 pf.redMax ++
    be16 pf.greenMax ++ be16 pf.blueMax ++ [pf.redShift] ++ [pf.greenShift] ++
    [pf.blueShift] ++ pf.pad.val

def WireScreen.bytes (s : WireScreen) : List Byte :=
  be32 s.id ++ be16 s.x ++ be16 s.y ++ be16 s.w ++ be16 s.h ++ be32 s.flags

def WireClipboard.bytes (e : WireClipboard) : List Byte :=
  [e.mime.count] ++ e.mime.val ++ be32 e.data.count ++ e.data.val

namespace ClientMessage

def msgType : ClientMessage → ℕ
  | setPixelFormat .. => msgTypeSetPixelFormat
  | setEncodings .. => msgTypeSetEncodings
  | setDesktopSize .. => msgTypeSetDesktopSize
  | setMaxVideoResolution .. => msgTypeSetMaxVideoResolution
  | framebufferUpdateRequest .. => msgTypeFramebufferUpdateRequest
  | enableContinuousUpdates .. => msgTypeEnableContinuousUpdates
  | fence .. => msgTypeClientFence
  | requestStats .. => msgTypeRequestStats
  | frameStats .. => msgTypeFrameStats
  | binaryClipboard .. => msgTypeBinaryClipboard
  | keyEvent .. => msgTypeKeyEvent
  | pointerEvent .. => msgTypePointerEvent
  | clientCutText .. => msgTypeClientCutText
  | extendedClipboard .. => msgTypeClientCutText
  | qemuKeyEvent .. => msgTypeQEMUClientMessage
  | upgradeToUdp .. => msgTypeUpgradeToUdp
  | subscribeUnixRelay .. => msgTypeSubscribeUnixRelay
  | unixRelay .. => msgTypeUnixRelay
  | videoEncoders .. => msgTypeVideoEncoders
  | keepAlive => msgTypeKeepAlive

/-- What follows the type byte. -/
def body : ClientMessage → List Byte
  | setPixelFormat pad pf => pad.val ++ pf.bytes
  | setEncodings pad encodings =>
    pad.val ++ be16 encodings.count ++ encodings.val.flatMap be32
  | setDesktopSize pad width height screens pad' =>
    pad.val ++ be16 width ++ be16 height ++ [screens.count] ++ pad'.val ++
      screens.val.flatMap WireScreen.bytes
  | setMaxVideoResolution width height => be16 width ++ be16 height
  | framebufferUpdateRequest inc x y w h =>
    [inc] ++ be16 x ++ be16 y ++ be16 w ++ be16 h
  | enableContinuousUpdates enable x y w h =>
    [enable] ++ be16 x ++ be16 y ++ be16 w ++ be16 h
  | fence pad flags data => pad.val ++ be32 flags ++ [data.count] ++ data.val
  | requestStats pad => pad.val
  | frameStats pad all render => pad.val ++ be32 all ++ be32 render
  | binaryClipboard entries =>
    [entries.count] ++ entries.val.flatMap WireClipboard.bytes
  | keyEvent down pad key => [down] ++ pad.val ++ be32 key
  | pointerEvent mask x y scrollX scrollY =>
    be16 mask ++ be16 x ++ be16 y ++ be16 scrollX ++ be16 scrollY
  | clientCutText pad text =>
    pad.val ++ be32 (BitVec.ofNat 32 text.val.length) ++ text.val
  | extendedClipboard pad data _ =>
    pad.val ++ be32 (-BitVec.ofNat 32 data.length) ++ data
  | qemuKeyEvent down keysym keycode =>
    [BitVec.ofNat 8 qemuExtendedKeyEvent] ++ be16 down ++ be32 keysym ++ be32 keycode
  | upgradeToUdp request => be16 request.count ++ request.val
  | subscribeUnixRelay name => [name.count] ++ name.val
  | unixRelay name data => [name.count] ++ name.val ++ be32 data.count ++ data.val
  | videoEncoders encoders => [encoders.count] ++ encoders.val.flatMap be32
  | keepAlive => []

def bytes (m : ClientMessage) : List Byte := BitVec.ofNat 8 m.msgType :: m.body

end ClientMessage

/-! ## What the handler is told -/

/-- The pixel format a wire format stands for. -/
def WirePixelFormat.fields (pf : WirePixelFormat) : PixelFormatFields :=
  PixelFormatFields.withoutColourMap
    { bpp := pf.bpp.toNat, depth := pf.depth.toNat
      bigEndian := pf.bigEndian ≠ 0, trueColour := pf.trueColour ≠ 0
      redMax := pf.redMax.toNat, greenMax := pf.greenMax.toNat, blueMax := pf.blueMax.toNat
      redShift := pf.redShift.toNat, greenShift := pf.greenShift.toNat
      blueShift := pf.blueShift.toNat }

def WireScreen.screen (s : WireScreen) : Screen :=
  ⟨s.id, Rect.ofXYWH s.x.toNat s.y.toNat s.w.toNat s.h.toNat, s.flags⟩

/-- Entries beyond the accepted size are dropped. -/
def WireClipboard.accepted (settings : ReaderSettings) (e : WireClipboard) : Bool :=
  settings.dlpClipAcceptMax = 0 || e.data.val.length ≤ settings.dlpClipAcceptMax

def clipboardCalls (settings : ReaderSettings) (entries : List WireClipboard) :
    List HandlerCall :=
  let accepted := entries.filter (·.accepted settings)
  accepted.map (fun e => .addBinaryClipboard (cString e.mime.val) e.data.val) ++
    [.handleClipboardAnnounceBinary (accepted.map fun e => (cString e.mime.val).take 31)]

/-- The calls a message leads to; `none` if the reader throws. -/
def ClientMessage.calls (settings : ReaderSettings) :
    ClientMessage → Option (List HandlerCall)
  | setPixelFormat _ pf =>
    if hsane : pf.fields.isSane then some [.setPixelFormat ⟨pf.fields, hsane⟩] else none
  | setEncodings _ encodings => some [.setEncodings encodings.val]
  | setDesktopSize _ width height screens _ =>
    some [.setDesktopSize width.toNat height.toNat
      ((screens.val.map WireScreen.screen).foldl .addScreen [])]
  | setMaxVideoResolution width height =>
    some (if !settings.ignoreClientSettingsKasm && settings.canChangeKasmSettings then
      [.maxVideoResolution width.toNat height.toNat] else [])
  | framebufferUpdateRequest inc x y w h =>
    some [.framebufferUpdateRequest
      (Rect.ofXYWH x.toNat y.toNat w.toNat h.toNat) (inc ≠ 0)]
  | enableContinuousUpdates enable x y w h =>
    some [.enableContinuousUpdates (enable ≠ 0) x.toNat y.toNat w.toNat h.toNat]
  | fence _ flags data =>
    some (if data.val.length > 64 then [] else [.fence flags data.val])
  | requestStats _ => some [.sendStats]
  | frameStats _ all render => some [.handleFrameStats all render]
  | binaryClipboard entries =>
    some (.clearBinaryClipboard :: clipboardCalls settings entries.val)
  | keyEvent down _ key => some [.keyEvent key 0 (down ≠ 0)]
  | pointerEvent mask x y scrollX scrollY =>
    some [.pointerEvent (x.toNat, y.toNat) mask.toNat scrollX.toInt scrollY.toInt]
  | clientCutText .. => some []
  | extendedClipboard _ data _ =>
    if data.length < 4 ∨ data.length = 2 ^ 31 then none else some []
  | qemuKeyEvent down keysym keycode =>
    some (if keycode = 0 then [] else [.keyEvent keysym keycode (down ≠ 0)])
  | upgradeToUdp request =>
    some (if request.val.length ≥ 4096 then []
      else if request.val = [] then [.udpDowngrade]
      else [.udpUpgrade (settings.wuGotHttp request.val)])
  | subscribeUnixRelay name =>
    some (if name.val.length ≥ 64 then [] else [.subscribeUnixRelay (cString name.val)])
  | unixRelay name data =>
    some (if name.val.length ≥ 64 ∨ data.val.length ≥ 1024 * 1024 then []
      else [.unixRelay (cString name.val) data.val])
  | videoEncoders encoders => some [.videoEncodersRequest encoders.val]
  | keepAlive => some [.keepAlive]

end KasmVNC.Rfb
