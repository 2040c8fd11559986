import KasmVNC.Rfb.Encodings
import KasmVNC.Rfb.Fence
import KasmVNC.Rfb.Framing

/-!
# The writer of client messages

`CMsgWriter`, the viewer's side of the protocol, and what the server's reader
makes of what it writes. Integers are cut down to the width of their field.
-/

namespace KasmVNC.Rfb

open KasmVNC.Lib KasmVNC.Lib.Reader SMsgReader

/-- The members of the viewer's `ConnParams` the writer looks at. -/
structure ViewerParams where
  width : ℤ
  height : ℤ
  supportsSetDesktopSize : Bool
  supportsContinuousUpdates : Bool
  supportsFence : Bool
  supportsQEMUKeyEvent : Bool
  supportsLocalCursor : Bool
  supportsDesktopResize : Bool
  supportsExtendedDesktopSize : Bool
  supportsDesktopRename : Bool
  supportsLEDState : Bool
  compressLevel : ℤ
  qualityLevel : ℤ
  clipboardFlags : BitVec 32
  /-- The zlib stream of `writeClipboardProvide`. -/
  deflate : List Byte → List Byte

abbrev clipboardCaps : BitVec 32 := 1 <<< 24
abbrev clipboardRequest : BitVec 32 := 1 <<< 25
abbrev clipboardPeek : BitVec 32 := 1 <<< 26
abbrev clipboardNotify : BitVec 32 := 1 <<< 27
abbrev clipboardProvide : BitVec 32 := 1 <<< 28

namespace CMsgWriter

def u8 (x : ℤ) : Byte := BitVec.ofInt 8 x
def u16 (x : ℤ) : BitVec 16 := BitVec.ofInt 16 x
def flag (b : Bool) : Byte := if b then 1 else 0
def pad (n : ℕ) : List Byte := List.replicate n 0
def startMsg (msgType : ℕ) : List Byte := [BitVec.ofNat 8 msgType]

def writeClientInit (shared : Bool) : List Byte := [flag shared]

/-- `PixelFormat::write` -/
def writePixelFormat (pf : PixelFormat) : List Byte :=
  [u8 pf.bpp] ++ [u8 pf.depth] ++ [flag pf.bigEndian] ++ [flag pf.trueColour] ++
    be16 (u16 pf.redMax) ++ be16 (u16 pf.greenMax) ++ be16 (u16 pf.blueMax) ++
    [u8 pf.redShift] ++ [u8 pf.greenShift] ++ [u8 pf.blueShift] ++ pad 3

def writeSetPixelFormat (pf : PixelFormat) : List Byte :=
  startMsg msgTypeSetPixelFormat ++ (pad 3 ++ writePixelFormat pf)

def writeSetEncodings (encodings : List (BitVec 32)) : List Byte :=
  startMsg msgTypeSetEncodings ++
    (pad 1 ++ be16 (u16 encodings.length) ++ encodings.flatMap be32)

/-- `Decoder::supported` -/
def decoderSupported (encoding : ℤ) : Bool :=
  encoding ∈ [encodingRaw, encodingCopyRect, encodingRRE, encodingHextile, encodingZRLE,
    encodingTight]

/-- Encodings asked for under a condition. -/
def optional (b : Bool) (encodings : List ℤ) : List ℤ := if b then encodings else []

theorem length_optional_le (b : Bool) (encodings : List ℤ) :
    (optional b encodings).length ≤ encodings.length := by
  cases b
  · exact Nat.zero_le _
  · exact le_refl _

/-- The list `writeSetEncodings(preferredEncoding, useCopyRect)` asks for. -/
def wantedEncodings (cp : ViewerParams) (preferredEncoding : ℤ) (useCopyRect : Bool) :
    List ℤ :=
  optional cp.supportsLocalCursor
    [pseudoEncodingCursorWithAlpha, pseudoEncodingCursor, pseudoEncodingXCursor] ++
  optional cp.supportsDesktopResize [pseudoEncodingDesktopSize] ++
  optional cp.supportsExtendedDesktopSize [pseudoEncodingExtendedDesktopSize] ++
  optional cp.supportsDesktopRename [pseudoEncodingDesktopName] ++
  optional cp.supportsLEDState [pseudoEncodingLEDState] ++
  [pseudoEncodingLastRect, pseudoEncodingContinuousUpdates, pseudoEncodingFence,
    pseudoEncodingQEMUKeyEvent] ++
  optional (decoderSupported preferredEncoding) [preferredEncoding] ++
  optional useCopyRect [encodingCopyRect] ++
  optional (preferredEncoding ≠ encodingTight) [encodingTight] ++
  optional (preferredEncoding ≠ encodingZRLE) [encodingZRLE] ++
  optional (preferredEncoding ≠ encodingHextile) [encodingHextile] ++
  ((List.range (encodingMax + 1)).reverse.map Int.ofNat).filter (fun i =>
    i ∉ [encodingCopyRect, encodingTight, encodingZRLE, encodingHextile] &&
      i ≠ preferredEncoding && decoderSupported i) ++
  optional (0 ≤ cp.compressLevel && cp.compressLevel ≤ 9)
    [pseudoEncodingCompressLevel0 + cp.compressLevel] ++
  optional (0 ≤ cp.qualityLevel && cp.qualityLevel ≤ 9)
    [pseudoEncodingQualityLevel0 + cp.qualityLevel]

def writePreferredEncodings (cp : ViewerParams) (preferredEncoding : ℤ)
    (useCopyRect : Bool) : List Byte :=
  writeSetEncodings ((wantedEncodings cp preferredEncoding useCopyRect).map
    (BitVec.ofInt 32))

def writeScreen (s : Screen) : List Byte :=
  be32 s.id ++ be16 (u16 s.dimensions.tl.1) ++ be16 (u16 s.dimensions.tl.2) ++
    be16 (u16 s.dimensions.width) ++ be16 (u16 s.dimensions.height) ++ be32 s.flags

def writeSetDesktopSize (cp : ViewerParams) (width height : ℤ) (layout : ScreenSet) :
    Except String (List Byte) :=
  if !cp.supportsSetDesktopSize then .error "Server does not support SetDesktopSize"
  else .ok (startMsg msgTypeSetDesktopSize ++ (pad 1 ++ be16 (u16 width) ++
    be16 (u16 height) ++ [u8 layout.length] ++ pad 1 ++ layout.flatMap writeScreen))

def writeFramebufferUpdateRequest (r : Rect) (incremental : Bool) : List Byte :=
  startMsg msgTypeFramebufferUpdateRequest ++ ([flag incremental] ++ be16 (u16 r.tl.1) ++
    be16 (u16 r.tl.2) ++ be16 (u16 r.width) ++ be16 (u16 r.height))

def writeEnableContinuousUpdates (cp : ViewerParams) (enable : Bool) (x y w h : ℤ) :
    Except String (List Byte) :=
  if !cp.supportsContinuousUpdates then .error "Server does not support continuous updates"
  else .ok (startMsg msgTypeEnableContinuousUpdates ++ ([flag enable] ++ be16 (u16 x) ++
    be16 (u16 y) ++ be16 (u16 w) ++ be16 (u16 h)))

def writeFence (cp : ViewerParams) (flags : BitVec 32) (data : List Byte) :
    Except String (List Byte) :=
  if !cp.supportsFence then .error "Server does not support fences"
  else if data.length > 64 then .error "Too large fence payload"
  else if flags &&& ~~~fenceFlagsSupported ≠ 0 then .error "Unknown fence flags"
  else .ok (startMsg msgTypeClientFence ++
    (pad 3 ++ be32 flags ++ [u8 data.length] ++ data))

/-- Without a keysym nothing is written, unless the keycode can be sent. -/
def writeKeyEvent (cp : ViewerParams) (keysym keycode : BitVec 32) (down : Bool) :
    List Byte :=
  if !cp.supportsQEMUKeyEvent || keycode = 0 then
    if keysym = 0 then []
    else startMsg msgTypeKeyEvent ++ ([flag down] ++ pad 2 ++ be32 keysym)
  else
    startMsg msgTypeQEMUClientMessage ++ ([BitVec.ofNat 8 qemuExtendedKeyEvent] ++
      be16 (u16 down.toNat) ++ be32 keysym ++ be32 keycode)

def writePointerEvent (cp : ViewerParams) (pos : Point) (buttonMask : ℤ) : List Byte :=
  let x := if pos.1 < 0 then 0 else pos.1
  let y := if pos.2 < 0 then 0 else pos.2
  let x := if x ≥ cp.width then cp.width - 1 else x
  let y := if y ≥ cp.height then cp.height - 1 else y
  startMsg msgTypePointerEvent ++ ([u8 buttonMask] ++ be16 (u16 x) ++ be16 (u16 y))

def writeClientCutText (text : List Byte) : List Byte :=
  startMsg msgTypeClientCutText ++ (pad 3 ++ be32 (BitVec.ofNat 32 text.length) ++ text)

/-- An extended clipboard message: the negated length, then the content. -/
def writeExtendedClipboard (content : List Byte) : List Byte :=
  startMsg msgTypeClientCutText ++
    (pad 3 ++ be32 (-BitVec.ofNat 32 content.length) ++ content)

/-- The formats among the low sixteen bits. -/
def formatCount (flags : BitVec 32) : ℕ :=
  ((List.range 16).filter fun i => flags.getLsbD i).length

/-- A clipboard action, if the server has announced it. -/
def writeClipboardAction (cp : ViewerParams) (action : BitVec 32) (msg : String)
    (content : List Byte) : Except String (List Byte) :=
  if cp.clipboardFlags &&& action = 0 then .error msg
  else .ok (writeExtendedClipboard content)

def writeClipboardCaps (cp : ViewerParams) (caps : BitVec 32) (lengths : List (BitVec 32)) :
    Except String (List Byte) :=
  writeClipboardAction cp clipboardCaps "Server does not support clipboard \"caps\" action"
    (be32 (caps ||| clipboardCaps) ++
      (List.range (formatCount caps)).flatMap fun i => be32 (lengths.getD i 0))

def writeClipboardRequest (cp : ViewerParams) (flags : BitVec 32) :
    Except String (List Byte) :=
  writeClipboardAction cp clipboardRequest
    "Server does not support clipboard \"request\" action"
    (be32 (flags ||| clipboardRequest))

def writeClipboardPeek (cp : ViewerParams) (flags : BitVec 32) :
    Except String (List Byte) :=
  writeClipboardAction cp clipboardPeek "Server does not support clipboard \"peek\" action"
    (be32 (flags ||| clipboardPeek))

def writeClipboardNotify (cp : ViewerParams) (flags : BitVec 32) :
    Except String (List Byte) :=
  writeClipboardAction cp clipboardNotify
    "Server does not support clipboard \"notify\" action"
    (be32 (flags ||| clipboardNotify))

/-- What `writeClipboardProvide` compresses. -/
def provided (flags : BitVec 32) (data : List (List Byte)) : List Byte :=
  (List.range (formatCount flags)).flatMap fun i =>
    be32 (BitVec.ofNat 32 (data.getD i []).length) ++ data.getD i []

def writeClipboardProvide (cp : ViewerParams) (flags : BitVec 32) (data : List (List Byte)) :
    Except String (List Byte) :=
  writeClipboardAction cp clipboardProvide
    "Server does not support clipboard \"provide\" action"
    (be32 (flags ||| clipboardProvide) ++ cp.deflate (provided flags data))

end CMsgWriter

/-! ## Calls of the writer -/

/-- A call of one of the writer's methods. -/
inductive WriterCall
  | clientInit (shared : Bool)
  | setPixelFormat (pf : PixelFormat)
  | setEncodings (encodings : List (BitVec 32))
  | preferredEncodings (preferredEncoding : ℤ) (useCopyRect : Bool)
  | setDesktopSize (width height : ℤ) (layout : ScreenSet)
  | framebufferUpdateRequest (r : Rect) (incremental : Bool)
  | enableContinuousUpdates (enable : Bool) (x y w h : ℤ)
  | fence (flags : BitVec 32) (data : List Byte)
  | keyEvent (keysym keycode : BitVec 32) (down : Bool)
  | pointerEvent (pos : Point) (buttonMask : ℤ)
  | clientCutText (text : List Byte)
  | clipboardCaps (caps : BitVec 32) (lengths : List (BitVec 32))
  | clipboardRequest (flags : BitVec 32)
  | clipboardPeek (flags : BitVec 32)
  | clipboardNotify (flags : BitVec 32)
  | clipboardProvide (flags : BitVec 32) (data : List (List Byte))

namespace WriterCall

/-- The bytes a call writes, or the exception it throws. -/
def write (cp : ViewerParams) : WriterCall → Except String (List Byte)
  | clientInit shared => .ok (CMsgWriter.writeClientInit shared)
  | setPixelFormat pf => .ok (CMsgWriter.writeSetPixelFormat pf)
  | setEncodings encodings => .ok (CMsgWriter.writeSetEncodings encodings)
  | preferredEncodings p u => .ok (CMsgWriter.writePreferredEncodings cp p u)
  | setDesktopSize width height layout =>
    CMsgWriter.writeSetDesktopSize cp width height layout
  | framebufferUpdateRequest r inc => .ok (CMsgWriter.writeFramebufferUpdateRequest r inc)
  | enableContinuousUpdates enable x y w h =>
    CMsgWriter.writeEnableContinuousUpdates cp enable x y w h
  | fence flags data => CMsgWriter.writeFence cp flags data
  | keyEvent keysym keycode down => .ok (CMsgWriter.writeKeyEvent cp keysym keycode down)
  | pointerEvent pos mask => .ok (CMsgWriter.writePointerEvent cp pos mask)
  | clientCutText text => .ok (CMsgWriter.writeClientCutText text)
  | clipboardCaps caps lengths => CMsgWriter.writeClipboardCaps cp caps lengths
  | clipboardRequest flags => CMsgWriter.writeClipboardRequest cp flags
  | clipboardPeek flags => CMsgWriter.writeClipboardPeek cp flags
  | clipboardNotify flags => CMsgWriter.writeClipboardNotify cp flags
  | clipboardProvide flags data => CMsgWriter.writeClipboardProvide cp flags data

/-- The reader's method for what the call writes. -/
def reader (settings : ReaderSettings) (handler : Handler HandlerCall) :
    WriterCall → MsgReader Unit
  | clientInit _ => readClientInit handler
  | _ => readMsg settings handler

end WriterCall

end KasmVNC.Rfb
