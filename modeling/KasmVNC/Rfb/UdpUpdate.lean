import KasmVNC.Network.Udp
import KasmVNC.Rfb.EncodeManager
import KasmVNC.Rfb.RectStreams

/-!
# Updates over UDP

What `EncodeManager::doUpdate` writes to the UDP stream of a client, rectangle by rectangle.
The header of a rectangle and its payload are collected in the buffer of the stream, and
`endRect` flushes it; a skip rectangle of video mode is written without either. Which
rectangles there are is the business of `EncodeManager`, and what they hold is that of the
encoders. The codecs are parameters, with what they make of an image at most.
-/

namespace KasmVNC.Rfb

open KasmVNC.Lib KasmVNC.Network EncoderClass

/-- The next multiple of `n`. -/
def padded (n m : ℕ) : ℕ := (m + (n - 1)) / n * n

/-- What JPEG and WEBP make of an image at most: two bytes for each sample of its blocks,
which are 8x8 with three components, or 16x16 with the colours at half the resolution. -/
def imageBound (w h : ℕ) : ℕ :=
  max (6 * (padded 8 w * padded 8 h)) (3 * (padded 16 w * padded 16 h)) + 2048

/-- The codecs of a connection keep to the bound. -/
structure KeepsBound {k : ℕ} (set : EncoderSettings k) : Prop where
  jpeg_le : ∀ pb, (set.jpeg pb).length ≤ imageBound pb.width pb.height
  webp_le : ∀ pb, (set.webp pb).length ≤ imageBound pb.width pb.height

def tightIT : Byte := 0x0d

def kasmVideoSkip : Byte := 0

/-- What `getEncoderType` and `preparePixelBuffer` make of a tile. The data are compressed
or come from the cache; `prepareEncoders` never chooses the video encoders. -/
structure UdpTile (k : ℕ) (r : Rect) where
  encoder : EncoderClass
  palette : Palette (RawPixel k)
  pixel : Point → RawPixel k
  compressed : List Byte
  ne_video : encoder ≠ encoderKasmVideo
  compressed_le : compressed.length ≤ imageBound r.cols r.rows

/-- The colour of a solid area, and the active encoder for it. -/
structure UdpSolid (k : ℕ) where
  encoder : EncoderClass
  colour : RawPixel k
  ne_video : encoder ≠ encoderKasmVideo

/-- `watermarkInfo` and `watermarkData` -/
structure Watermark where
  r : Byte
  g : Byte
  b : Byte
  a : Byte
  data : List Byte

/-- What is written to the stream at once. -/
inductive UdpPiece (k : ℕ)
  | copy (r : Rect) (srcX srcY : ℤ)
  | solid (r : Rect) (area : UdpSolid k)
  | tile (r : Rect) (tile : UdpTile k r)
  | frame (r : Rect) (pkt : VideoPacket)
  | skip (screen : Byte)
  | watermark (r : Rect) (watermark : Watermark)

/-- What an update of a client that supports UDP goes by. -/
structure UdpUpdate where
  ctx : EncodeContext
  m : EncodeManager
  ui : UpdateInfo
  /-- The writer, with the marks that have been set. -/
  writer : SMsgWriter
  /-- `updates` -/
  updates : BitVec 32
  width : PixelWidth
  pf : PixelFormatOf width
  set : EncoderSettings width.bytes
  solid : Rect → UdpSolid width.bytes
  tile : ∀ r : Rect, UdpTile width.bytes r
  /-- The tiles of the rendered cursor. -/
  cursorTile : ∀ r : Rect, UdpTile width.bytes r
  /-- The screens for which a skip rectangle is written. -/
  skips : List Byte
  packet : Rect → VideoPacket
  watermark : Watermark
  /-- Whether `WuHostSendBinary` takes the pieces of a flush. -/
  sends : ℕ → ℕ → Bool
  supportsUdp : ctx.cp.supportsUdp = true
  pbRect_le : ctx.pbRect.width ≤ 16384 ∧ ctx.pbRect.height ≤ 16384
  changed_subset : ui.changed ⊆ Region.ofRect ctx.pbRect
  skips_le : skips.length ≤ 8
  /-- `writeUpdate` is called with something to send. -/
  nonempty_of_skip : skips ≠ [] → ui.changed ≠ ∅ ∨ ui.copied ≠ ∅ ∨ ui.copypassed ≠ []
  keepsBound : KeepsBound set

/-- Why an update ends before its time. -/
inductive UdpFailure
  | fault (fault : Fault)
  | writer (err : WriterError)
  /-- `UdpStream::overrun`, which ends the server. -/
  | overrun

/-- The encoders and the stream of a client. `γ` are the clients of the WebRTC host. -/
structure UdpConn (Z : Zlib) (γ : Type*) where
  conn : RectConn Z
  stream : UdpStream γ

namespace UdpPiece

variable {k : ℕ} {width : PixelWidth} {Z : Zlib}

/-- `startRect` for the rectangle of a piece. -/
def start (ctx : EncodeContext) (w : SMsgWriter) : UdpPiece k → Except WriterError SMsgWriter
  | copy r srcX srcY => w.writeCopyRect ctx.cp r srcX srcY
  | solid r _ | tile r _ | frame r _ => w.startRect ctx.cp r (ctx.encodingOf r)
  | skip _ => .ok w
  | watermark r _ => w.startRect ctx.cp r encodingTight

/-- `endRect` is called. -/
def flushes : UdpPiece k → Bool
  | skip _ => false
  | _ => true

/-- `writeWatermarkRect` -/
def watermarkWrites (o : OutStream) (w : Watermark) : Writes :=
  [(o, [tightIT <<< 4]), (o, writeCompact (BitVec.ofNat 32 (w.data.length + 4))),
    (o, [w.r]), (o, [w.g]), (o, [w.b]), (o, [w.a]), (o, w.data)]

/-- The header and the payload of a piece. -/
def write (ctx : EncodeContext) (pf : PixelFormatOf width) (set : EncoderSettings width.bytes)
    (c : RectConn Z) : UdpPiece width.bytes → Except Fault (Writes × RectConn Z)
  | copy r srcX srcY =>
    let o := getOutStream ctx.cp.supportsUdp
    .ok (startRectWrites ctx.cp r encodingCopyRect ++
      [(o, be16 (BitVec.ofInt 16 srcX)), (o, be16 (BitVec.ofInt 16 srcY))], c)
  | solid r area =>
    ((RectCall.solid area.encoder r.cols r.rows area.colour).write set pf c).map fun res =>
      (startRectWrites ctx.cp r (ctx.encodingOf r) ++ res.1, res.2)
  | tile r t =>
    ((RectCall.sub t.encoder t.palette ⟨r.cols, r.rows, t.pixel⟩ t.compressed).write set pf
      c).map fun res => (startRectWrites ctx.cp r (ctx.encodingOf r) ++ res.1, res.2)
  | frame r pkt =>
    .ok (startRectWrites ctx.cp r (ctx.encodingOf r) ++ videoWriteRect ctx.cp pkt, c)
  | skip screen =>
    let o := getOutStream ctx.cp.supportsUdp
    .ok ([(o, [screen]), (o, [kasmVideoSkip])], c)
  | watermark r w =>
    .ok (startRectWrites ctx.cp r encodingTight ++
      watermarkWrites (getOutStream ctx.cp.supportsUdp) w, c)

end UdpPiece

namespace UdpUpdate

variable (u : UdpUpdate)

/-! ## The pieces of an update -/

/-- `writeRects` -/
def tiles (m : EncodeManager) (changed : Region) (tile : ∀ r : Rect, UdpTile u.width.bytes r) :
    List (UdpPiece u.width.bytes) :=
  ((m.mainRects u.ctx changed).flatMap (m.subRects u.ctx)).map fun r => .tile r (tile r)

def copyPieces : List (UdpPiece u.width.bytes) :=
  (u.ui.copied.getRects (u.ui.copyDelta.1 ≤ 0) (u.ui.copyDelta.2 ≤ 0)).map fun r =>
    .copy r (r.tl.1 - u.ui.copyDelta.1) (r.tl.2 - u.ui.copyDelta.2)

def copypassPieces : List (UdpPiece u.width.bytes) :=
  u.ui.copypassed.map fun c => .copy c.rect c.srcX c.srcY

/-- The changed pixels. In video mode the screens have all been rendered before the first
of them is sent. -/
def pixelPieces : List (UdpPiece u.width.bytes) :=
  let changed := EncodeManager.outsideCursor u.ctx u.ui.changed
  let m := u.m.detect u.ctx changed
  match EncodeManager.videoFrames u.ctx changed with
  | some screens => u.skips.map .skip ++ screens.map fun r => .frame r (u.packet r)
  | none =>
    ((EncodeManager.solidPart u.ctx changed).map fun r => .solid r (u.solid r)) ++
      (u.tiles m (EncodeManager.remaining u.ctx changed) u.tile ++
        if m.videoDetected then []
        else u.tiles m (EncodeManager.cursorRegion u.ctx u.ui.changed) u.cursorTile)

def watermarkPieces : List (UdpPiece u.width.bytes) :=
  if u.ctx.watermarkData && u.ctx.sendWatermark then
    [.watermark ⟨(0, 0), (u.ctx.pbRect.width, u.ctx.pbRect.height)⟩ u.watermark]
  else []

def pieces : List (UdpPiece u.width.bytes) :=
  u.copyPieces ++ (u.copypassPieces ++ (u.pixelPieces ++ u.watermarkPieces))

/-- What a piece adds to the buffer of the stream, if the encoder does not fail. -/
def size {Z : Zlib} (c : RectConn Z) (p : UdpPiece u.width.bytes) : ℕ :=
  match p.write u.ctx u.pf u.set { c with cp := u.ctx.cp } with
  | .ok (ws, _) => (ws.on .udps).length
  | .error _ => 0

/-! ## Sending it -/

section Send

variable {Z : Zlib} {γ : Type*} (XXH64 : List Byte → BitVec 64) (udpSize : UdpSize)

def flush (s : UdpStream γ) : UdpStream γ := (s.flush XXH64 udpSize (u.sends s.totalLen)).2

/-- One piece: `startRect`, the payload and `endRect`. -/
def put (st : SMsgWriter × UdpConn Z γ) (p : UdpPiece u.width.bytes) :
    Except UdpFailure (SMsgWriter × UdpConn Z γ) :=
  match p.start u.ctx st.1 with
  | .error err => .error (.writer err)
  | .ok w =>
    match p.write u.ctx u.pf u.set { st.2.conn with cp := u.ctx.cp } with
    | .error fault => .error (.fault fault)
    | .ok (ws, conn) =>
      match st.2.stream.write (ws.on .udps) with
      | none => .error .overrun
      | some s => .ok (w, ⟨conn, if p.flushes then u.flush XXH64 udpSize s else s⟩)

/-- The flip marker. -/
def lastRectBytes (w : SMsgWriter) : List Byte :=
  be16 (BitVec.ofNat 16 w.dataRectsInUpdate) ++ (be16 0 ++ (be16 0 ++ (be16 0 ++
    be32 (BitVec.ofInt 32 pseudoEncodingLastRect))))

/-- `writeFramebufferUpdateEnd` -/
def finish (st : SMsgWriter × UdpConn Z γ) : Except UdpFailure (UdpConn Z γ) :=
  match st.1.writeFramebufferUpdateEnd u.ctx.cp with
  | .error err => .error (.writer err)
  | .ok _ =>
    if st.1.nRectsInHeader = 0 then
      match st.2.stream.write (lastRectBytes st.1) with
      | none => .error .overrun
      | some s => .ok ⟨st.2.conn, u.flush XXH64 udpSize s⟩
    else .ok st.2

/-- `doUpdate`, after the header and the pseudo-rectangles, which go over the other stream. -/
def doUpdate (st : UdpConn Z γ) : Except UdpFailure (UdpConn Z γ) :=
  match u.writer.writeFramebufferUpdateStart u.ctx.cp (u.m.nRects u.ctx u.ui) with
  | .error err => .error (.writer err)
  | .ok w =>
    tryRun (u.put XXH64 udpSize) (w, ⟨st.conn, st.stream.setFrameNumber u.updates⟩) u.pieces >>=
      u.finish XXH64 udpSize

end Send

end UdpUpdate

end KasmVNC.Rfb
