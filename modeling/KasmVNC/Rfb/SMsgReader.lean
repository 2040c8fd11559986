import KasmVNC.Lib.Wire
import KasmVNC.Rfb.Region

/-!
# The reader of client messages

`SMsgReader::readMsg` reads one message from the client and calls the handler's
method for it. The handler may throw, and so may the reader.
-/

namespace KasmVNC.Rfb

open KasmVNC.Lib KasmVNC.Lib.Reader

/-! ## Pixel formats -/

structure PixelFormatFields where
  bpp : ℕ
  depth : ℕ
  bigEndian : Bool
  trueColour : Bool
  redMax : ℕ
  greenMax : ℕ
  blueMax : ℕ
  redShift : ℕ
  greenShift : ℕ
  blueShift : ℕ
deriving DecidableEq, Repr

/-- The bit length of a value; one for zero. -/
def bits (value : BitVec 16) : ℕ :=
  let (n, value) := if value &&& 0xff00 = 0 then (8, value <<< 8) else (16, value)
  let (n, value) := if value &&& 0xf000 = 0 then (n - 4, value <<< 4) else (n, value)
  let (n, value) := if value &&& 0xc000 = 0 then (n - 2, value <<< 2) else (n, value)
  if value &&& 0x8000 = 0 then n - 1 else n

def PixelFormatFields.isSane (pf : PixelFormatFields) : Bool :=
  let redBits := bits (BitVec.ofNat 16 pf.redMax)
  let greenBits := bits (BitVec.ofNat 16 pf.greenMax)
  let blueBits := bits (BitVec.ofNat 16 pf.blueMax)
  (pf.bpp = 8 || pf.bpp = 16 || pf.bpp = 32) &&
  pf.depth ≤ pf.bpp &&
  (pf.trueColour || pf.depth = 8) &&
  pf.redMax &&& (pf.redMax + 1) = 0 &&
  pf.greenMax &&& (pf.greenMax + 1) = 0 &&
  pf.blueMax &&& (pf.blueMax + 1) = 0 &&
  pf.redMax < 256 && pf.greenMax < 256 && pf.blueMax < 256 &&
  redBits + greenBits + blueBits ≤ pf.depth &&
  redBits + pf.redShift ≤ pf.bpp &&
  greenBits + pf.greenShift ≤ pf.bpp &&
  blueBits + pf.blueShift ≤ pf.bpp &&
  (pf.redMax <<< pf.redShift) &&& (pf.greenMax <<< pf.greenShift) = 0 &&
  (pf.redMax <<< pf.redShift) &&& (pf.blueMax <<< pf.blueShift) = 0 &&
  (pf.greenMax <<< pf.greenShift) &&& (pf.blueMax <<< pf.blueShift) = 0

/-- A `PixelFormat` object: the constructor asserts that it is sane, `read`
throws otherwise. -/
structure PixelFormat extends PixelFormatFields where
  sane : toPixelFormatFields.isSane = true
deriving DecidableEq

/-- Clients that want a colour map get an 8-bit true colour format instead. -/
def PixelFormatFields.withoutColourMap (pf : PixelFormatFields) : PixelFormatFields :=
  if pf.trueColour then pf
  else { pf with
    redMax := 7, greenMax := 7, blueMax := 3, redShift := 0, greenShift := 3, blueShift := 6 }

/-! ## Screen layouts -/

structure Screen where
  id : BitVec 32
  dimensions : Rect
  flags : BitVec 32
deriving DecidableEq, Repr

/-- `rfb::ScreenSet`, kept sorted by id. -/
abbrev ScreenSet := List Screen

/-- `push_back` and sort. The layout is sorted already, so sorting moves the
new screen to its place. -/
def ScreenSet.addScreen : ScreenSet → Screen → ScreenSet
  | [], screen => [screen]
  | s :: layout, screen =>
    if screen.id < s.id then screen :: s :: layout
    else s :: addScreen layout screen

/-! ## The handler -/

/-- A C string: the bytes up to the first zero. -/
def cString (bytes : List Byte) : List Byte := bytes.takeWhile (· ≠ 0)

/-- Calls of `SMsgHandler` methods, and the one setting the reader changes. -/
inductive HandlerCall
  | clientInit (shared : Bool)
  | setPixelFormat (pf : PixelFormat)
  | setEncodings (encodings : List (BitVec 32))
  | setDesktopSize (width height : ℕ) (layout : ScreenSet)
  | maxVideoResolution (width height : ℕ)
  | framebufferUpdateRequest (r : Rect) (incremental : Bool)
  | enableContinuousUpdates (enable : Bool) (x y w h : ℕ)
  | fence (flags : BitVec 32) (data : List Byte)
  | sendStats
  | handleFrameStats (all render : BitVec 32)
  | clearBinaryClipboard
  | addBinaryClipboard (mime data : List Byte)
  | handleClipboardAnnounceBinary (mimes : List (List Byte))
  | keyEvent (keysym keycode : BitVec 32) (down : Bool)
  | pointerEvent (pos : Point) (mask : ℕ) (scrollX scrollY : ℤ)
  | udpDowngrade
  | udpUpgrade (resp : List Byte)
  | subscribeUnixRelay (name : List Byte)
  | unixRelay (name data : List Byte)
  | videoEncodersRequest (encoders : List (BitVec 32))
  | keepAlive
deriving DecidableEq

/-- Server settings and foreign code the reader depends on. -/
structure ReaderSettings where
  ignoreClientSettingsKasm : Bool
  canChangeKasmSettings : Bool
  dlpClipAcceptMax : ℕ
  wuGotHttp : List Byte → List Byte

abbrev MsgReader := Reader HandlerCall

@[match_pattern] abbrev msgTypeSetPixelFormat : ℕ := 0
@[match_pattern] abbrev msgTypeSetEncodings : ℕ := 2
@[match_pattern] abbrev msgTypeFramebufferUpdateRequest : ℕ := 3
@[match_pattern] abbrev msgTypeKeyEvent : ℕ := 4
@[match_pattern] abbrev msgTypePointerEvent : ℕ := 5
@[match_pattern] abbrev msgTypeClientCutText : ℕ := 6
@[match_pattern] abbrev msgTypeEnableContinuousUpdates : ℕ := 150
@[match_pattern] abbrev msgTypeRequestStats : ℕ := 178
@[match_pattern] abbrev msgTypeFrameStats : ℕ := 179
@[match_pattern] abbrev msgTypeBinaryClipboard : ℕ := 180
@[match_pattern] abbrev msgTypeUpgradeToUdp : ℕ := 181
@[match_pattern] abbrev msgTypeSubscribeUnixRelay : ℕ := 182
@[match_pattern] abbrev msgTypeUnixRelay : ℕ := 183
@[match_pattern] abbrev msgTypeVideoEncoders : ℕ := 184
@[match_pattern] abbrev msgTypeKeepAlive : ℕ := 185
@[match_pattern] abbrev msgTypeClientFence : ℕ := 248
@[match_pattern] abbrev msgTypeSetDesktopSize : ℕ := 251
@[match_pattern] abbrev msgTypeSetMaxVideoResolution : ℕ := 252
@[match_pattern] abbrev msgTypeQEMUClientMessage : ℕ := 255
@[match_pattern] abbrev qemuExtendedKeyEvent : ℕ := 0

/-! ## Messages -/

namespace SMsgReader

variable (settings : ReaderSettings) (handler : Handler HandlerCall)

def readClientInit : MsgReader Unit := do
  let shared ← readU8
  call handler (.clientInit (shared ≠ 0))

/-- `PixelFormat::read` -/
def readPixelFormat : MsgReader PixelFormat := do
  let bpp ← readU8
  let depth ← readU8
  let bigEndian ← readU8
  let trueColour ← readU8
  let redMax ← readU16
  let greenMax ← readU16
  let blueMax ← readU16
  let redShift ← readU8
  let greenShift ← readU8
  let blueShift ← readU8
  skip 3
  let pf := PixelFormatFields.withoutColourMap
    { bpp := bpp.toNat, depth := depth.toNat
      bigEndian := bigEndian ≠ 0, trueColour := trueColour ≠ 0
      redMax := redMax.toNat, greenMax := greenMax.toNat, blueMax := blueMax.toNat
      redShift := redShift.toNat, greenShift := greenShift.toNat
      blueShift := blueShift.toNat }
  if hsane : pf.isSane then return ⟨pf, hsane⟩
  else fail "invalid pixel format"

def readSetPixelFormat : MsgReader Unit := do
  skip 3
  let pf ← readPixelFormat
  call handler (.setPixelFormat pf)

def readSetEncodings : MsgReader Unit := do
  skip 1
  let nEncodings ← readU16
  let encodings ← readMany readU32 nEncodings.toNat
  call handler (.setEncodings encodings)

def readScreen : MsgReader Screen := do
  let id ← readU32
  let sx ← readU16
  let sy ← readU16
  let sw ← readU16
  let sh ← readU16
  let flags ← readU32
  return ⟨id, Rect.ofXYWH sx.toNat sy.toNat sw.toNat sh.toNat, flags⟩

def readSetDesktopSize : MsgReader Unit := do
  skip 1
  let width ← readU16
  let height ← readU16
  let screens ← readU8
  skip 1
  let screens ← readMany readScreen screens.toNat
  call handler (.setDesktopSize width.toNat height.toNat (screens.foldl .addScreen []))

def readSetMaxVideoResolution : MsgReader Unit := do
  let width ← readU16
  let height ← readU16
  if !settings.ignoreClientSettingsKasm && settings.canChangeKasmSettings then
    call handler (.maxVideoResolution width.toNat height.toNat)
  else return

def readFramebufferUpdateRequest : MsgReader Unit := do
  let inc ← readU8
  let x ← readU16
  let y ← readU16
  let w ← readU16
  let h ← readU16
  call handler (.framebufferUpdateRequest
    (Rect.ofXYWH x.toNat y.toNat w.toNat h.toNat) (inc ≠ 0))

def readEnableContinuousUpdates : MsgReader Unit := do
  let enable ← readU8
  let x ← readU16
  let y ← readU16
  let w ← readU16
  let h ← readU16
  call handler (.enableContinuousUpdates (enable ≠ 0) x.toNat y.toNat w.toNat h.toNat)

def readFence : MsgReader Unit := do
  skip 3
  let flags ← readU32
  let len ← readU8
  if len.toNat > 64 then
    skip len.toNat
  else
    let data ← readBytes len.toNat
    call handler (.fence flags data)

def readKeyEvent : MsgReader Unit := do
  let down ← readU8
  skip 2
  let key ← readU32
  call handler (.keyEvent key 0 (down ≠ 0))

def readPointerEvent : MsgReader Unit := do
  let mask ← readU16
  let x ← readU16
  let y ← readU16
  let scrollX ← readU16
  let scrollY ← readU16
  call handler (.pointerEvent (x.toNat, y.toNat) mask.toNat scrollX.toInt scrollY.toInt)

def readExtendedClipboard (len : ℤ) : MsgReader Unit :=
  if len < 4 then fail "Invalid extended clipboard message"
  else skip len.toNat

/-- A set top bit makes the length negative and the message an extended one. -/
def readClientCutText : MsgReader Unit := do
  skip 3
  let len ← readU32
  if len &&& 0x80000000 ≠ 0 then
    let slen := (-len).toInt
    readExtendedClipboard slen
  else
    skip len.toNat

/-- The loop of `readBinaryClipboard` and the call after it; `mimes` are the
names of the valid entries so far. -/
def readClipboardEntries : ℕ → List (List Byte) → MsgReader Unit
  | 0, mimes => call handler (.handleClipboardAnnounceBinary mimes)
  | n + 1, mimes => do
      let mimelen ← readU8
      let mime ← readBytes mimelen.toNat
      let len ← readU32
      let data ← readBytes len.toNat
      if settings.dlpClipAcceptMax ≠ 0 ∧ len.toNat > settings.dlpClipAcceptMax then
        readClipboardEntries n mimes
      else
        call handler (.addBinaryClipboard (cString mime) data)
        readClipboardEntries n (mimes ++ [(cString mime).take 31])

def readBinaryClipboard : MsgReader Unit := do
  let num ← readU8
  call handler .clearBinaryClipboard
  readClipboardEntries settings handler num.toNat []

def readRequestStats : MsgReader Unit := do
  skip 3
  call handler .sendStats

def readFrameStats : MsgReader Unit := do
  skip 3
  let all ← readU32
  let render ← readU32
  call handler (.handleFrameStats all render)

def readKeepAlive : MsgReader Unit := call handler .keepAlive

def readQEMUKeyEvent : MsgReader Unit := do
  let down ← readU16
  let keysym ← readU32
  let keycode ← readU32
  if keycode = 0 then return
  else call handler (.keyEvent keysym keycode (down ≠ 0))

def readQEMUMessage : MsgReader Unit := do
  let subType ← readU8
  match subType.toNat with
  | qemuExtendedKeyEvent => readQEMUKeyEvent handler
  | _ => fail "unknown QEMU submessage type"

def readUpgradeToUdp : MsgReader Unit := do
  let len ← readU16
  if len.toNat ≥ 4096 then
    skip len.toNat
  else if len = 0 then
    call handler .udpDowngrade
  else
    let buf ← readBytes len.toNat
    call handler (.udpUpgrade (settings.wuGotHttp buf))

def readSubscribeUnixRelay : MsgReader Unit := do
  let namelen ← readU8
  if namelen.toNat ≥ 64 then
    skip namelen.toNat
  else
    let name ← readBytes namelen.toNat
    call handler (.subscribeUnixRelay (cString name))

def readUnixRelay : MsgReader Unit := do
  let namelen ← readU8
  if namelen.toNat ≥ 64 then
    -- returns before the length of the data has been read
    skip namelen.toNat
  else
    let name ← readBytes namelen.toNat
    let len ← readU32
    if len.toNat ≥ 1024 * 1024 then
      skip len.toNat
    else
      let buf ← readBytes len.toNat
      call handler (.unixRelay (cString name) buf)

def readVideoEncodersRequest : MsgReader Unit := do
  let len ← readU8
  let buf ← readMany readU32 len.toNat
  call handler (.videoEncodersRequest buf)

def readMsg : MsgReader Unit := do
  let msgType ← readU8
  match msgType.toNat with
  | msgTypeSetPixelFormat => readSetPixelFormat handler
  | msgTypeSetEncodings => readSetEncodings handler
  | msgTypeSetDesktopSize => readSetDesktopSize handler
  | msgTypeSetMaxVideoResolution => readSetMaxVideoResolution settings handler
  | msgTypeFramebufferUpdateRequest => readFramebufferUpdateRequest handler
  | msgTypeEnableContinuousUpdates => readEnableContinuousUpdates handler
  | msgTypeClientFence => readFence handler
  | msgTypeRequestStats => readRequestStats handler
  | msgTypeFrameStats => readFrameStats handler
  | msgTypeBinaryClipboard => readBinaryClipboard settings handler
  | msgTypeKeyEvent => readKeyEvent handler
  | msgTypePointerEvent => readPointerEvent handler
  | msgTypeClientCutText => readClientCutText
  | msgTypeQEMUClientMessage => readQEMUMessage handler
  | msgTypeUpgradeToUdp => readUpgradeToUdp settings handler
  | msgTypeSubscribeUnixRelay => readSubscribeUnixRelay handler
  | msgTypeUnixRelay => readUnixRelay handler
  | msgTypeVideoEncoders => readVideoEncodersRequest handler
  | msgTypeKeepAlive => readKeepAlive handler
  | _ => fail "unknown message type"

end SMsgReader

end KasmVNC.Rfb
