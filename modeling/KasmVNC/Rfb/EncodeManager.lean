import KasmVNC.Lib.Strides
import KasmVNC.Rfb.SMsgWriter
import KasmVNC.Rfb.UpdateTracker

/-!
# Sending an update

`rfb::EncodeManager::doUpdate`: it announces the number of rectangles it is
going to send, unless the client understands LastRect, and then sends copies,
encoded tiles, the rendered cursor and the watermark. How many rectangles there
are depends on video detection, which may set in between. The pixels matter only
for the encoding of a tile and for the solid areas, so both are parameters.
-/

namespace KasmVNC.Rfb

open KasmVNC.Lib

abbrev SubRectMaxArea : ℤ := 65536
abbrev SubRectMaxWidth : ℤ := 2048

/-- What `doUpdate` reads from the connection, the server settings and the
pixels. -/
structure EncodeContext where
  cp : ConnParams
  /-- `pb->getRect()` -/
  pbRect : Rect
  /-- `renderedCursor->getEffectiveRect()`, if there is a rendered cursor. -/
  renderedCursor : Option Rect
  videoModeAvailable : Bool
  /-- `conn->cp.encoder` is a video encoder. -/
  encoderAvailable : Bool
  /-- A watermark is configured. -/
  watermarkData : Bool
  /-- `conn->sendWatermark()` -/
  sendWatermark : Bool
  videoTime : ℕ
  frameRate : ℕ
  videoArea : ℕ
  /-- The solid areas `writeSolidRects` finds in a changed region. -/
  solidRects : Region → List Rect
  /-- The screens whose video encoders have a frame for a changed region, or
  none at all if the layout cannot be followed. -/
  screenFrames : Region → Option (List Rect)
  /-- The encoding that is chosen for a tile. -/
  encodingOf : Rect → ℤ

/-- The members of `EncodeManager` that decide how much is sent. -/
structure EncodeManager where
  videoDetected : Bool
  areaPercentages : ℕ → ℕ
  areaCur : ℕ

namespace EncodeManager

/-- `encoders[encoderTightWEBP]->isSupported()` -/
def webpSupported (cp : ConnParams) : Bool :=
  cp.supportsEncoding encodingTight && cp.supportsWEBP

/-- The legacy video mode: the whole screen is sent at once. -/
def legacyVideo (ctx : EncodeContext) (m : EncodeManager) : Bool :=
  m.videoDetected && !ctx.videoModeAvailable

/-- No split necessary? -/
def unsplit (ctx : EncodeContext) (m : EncodeManager) (r : Rect) : Bool :=
  (r.width * r.height < SubRectMaxArea && r.width < SubRectMaxWidth) ||
    (m.legacyVideo ctx && !webpSupported ctx.cp)

/-- `sw` -/
def subWidth (r : Rect) : ℤ := if r.width ≤ SubRectMaxWidth then r.width else SubRectMaxWidth

/-- `sh` -/
def subHeight (r : Rect) : ℤ := SubRectMaxArea / subWidth r

/-- The share of one rectangle in `computeNumRects`. -/
def numSubRects (ctx : EncodeContext) (m : EncodeManager) (r : Rect) : ℕ :=
  if m.unsplit ctx r then 1
  else (((r.width - 1) / subWidth r + 1) * ((r.height - 1) / subHeight r + 1)).toNat

def computeNumRects (ctx : EncodeContext) (m : EncodeManager) (changed : Region) : ℕ :=
  ((changed.getRects true true).map (m.numSubRects ctx)).sum

/-- The tiles `writeRects` cuts one rectangle into. -/
def subRects (ctx : EncodeContext) (m : EncodeManager) (r : Rect) : List Rect :=
  if m.unsplit ctx r then [r]
  else (strides (subHeight r) r.tl.2 r.br.2).flatMap fun y =>
    (strides (subWidth r) r.tl.1 r.br.1).map fun x =>
      ⟨(x, y), (min (x + subWidth r) r.br.1, min (y + subHeight r) r.br.2)⟩

/-- The share of the screen that changed, in percent. The sum is an `unsigned`. -/
def areaPercentage (pbRect : Rect) (rects : List Rect) : ℕ :=
  ((rects.map Rect.area).sum.toNat % 2 ^ 32 * 100 % 2 ^ 32) /
    (pbRect.width * pbRect.height).toNat

/-- Keep the shares of the last frames, and look for video in their mean. -/
def updateVideoStats (ctx : EncodeContext) (rects : List Rect) (m : EncodeManager) :
    EncodeManager :=
  if ctx.videoTime = 0 then { m with videoDetected := true }
  else
    let samples := ctx.videoTime * ctx.frameRate
    let areas := Function.update m.areaPercentages m.areaCur
      (areaPercentage ctx.pbRect rects % 256)
    let mean := ((List.range samples).map areas).sum / samples
    { videoDetected := m.videoDetected || ctx.videoArea < mean
      areaPercentages := areas
      areaCur := (m.areaCur + 1) % samples }

/-! ## Writing -/

/-- One `startRect` and `endRect` per rectangle. -/
def writeSubRects (ctx : EncodeContext) (rects : List Rect) (w : SMsgWriter) :
    Except WriterError SMsgWriter :=
  rects.foldlM (fun w r => w.startRect ctx.cp r (ctx.encodingOf r)) w

def writeCopyRects (ctx : EncodeContext) (copied : Region) (delta : Point) (w : SMsgWriter) :
    Except WriterError SMsgWriter :=
  (copied.getRects (delta.1 ≤ 0) (delta.2 ≤ 0)).foldlM
    (fun w r => w.writeCopyRect ctx.cp r (r.tl.1 - delta.1) (r.tl.2 - delta.2)) w

def writeCopyPassRects (ctx : EncodeContext) (copypassed : List CopyPassRect)
    (w : SMsgWriter) : Except WriterError SMsgWriter :=
  copypassed.foldlM (fun w c => w.writeCopyRect ctx.cp c.rect c.srcX c.srcY) w

/-- The rectangles `writeRects` starts from: the whole buffer in legacy video mode.
The rendered cursor is a buffer of the same size. -/
def mainRects (ctx : EncodeContext) (m : EncodeManager) (changed : Region) : List Rect :=
  if m.legacyVideo ctx then [ctx.pbRect] else changed.getRects true true

def writeRects (ctx : EncodeContext) (m : EncodeManager) (changed : Region)
    (w : SMsgWriter) : Except WriterError SMsgWriter :=
  writeSubRects ctx ((m.mainRects ctx changed).flatMap (m.subRects ctx)) w

/-- Solid areas are only searched for with LastRect, which needs no count. -/
def solidPart (ctx : EncodeContext) (changed : Region) : List Rect :=
  if ctx.cp.supportsLastRect && !ctx.cp.supportsQOI then ctx.solidRects changed else []

/-- The screens that are sent as video frames, if this update goes that way. -/
def videoFrames (ctx : EncodeContext) (changed : Region) : Option (List Rect) :=
  if ctx.videoModeAvailable && ctx.encoderAvailable then ctx.screenFrames changed else none

/-- The region that is left for the statistics and the tiles. -/
def remaining (ctx : EncodeContext) (changed : Region) : Region :=
  match videoFrames ctx changed with
  | some _ => changed
  | none => (solidPart ctx changed).foldl (fun region r => region \ Region.ofRect r) changed

/-- The state once the changed region has been looked at. -/
def detect (ctx : EncodeContext) (changed : Region) (m : EncodeManager) : EncodeManager :=
  m.updateVideoStats ctx ((remaining ctx changed).getRects true true)

/-- The changed pixels: video frames, or solid areas and tiles. The cursor is left
out if video was detected in between. -/
def writePixels (ctx : EncodeContext) (changed cursorRegion : Region) (m : EncodeManager)
    (w : SMsgWriter) : Except WriterError SMsgWriter :=
  match videoFrames ctx changed with
  | some screens => writeSubRects ctx screens w
  | none => do
      let w ← writeSubRects ctx (solidPart ctx changed) w
      let w ← (m.detect ctx changed).writeRects ctx (remaining ctx changed) w
      w.writeIf (!(m.detect ctx changed).videoDetected)
        ((m.detect ctx changed).writeRects ctx cursorRegion)

def writeWatermark (ctx : EncodeContext) (w : SMsgWriter) : Except WriterError SMsgWriter :=
  w.writeIf (ctx.watermarkData && ctx.sendWatermark) fun w =>
    w.startRect ctx.cp ⟨(0, 0), (ctx.pbRect.width, ctx.pbRect.height)⟩ encodingTight

/-- The part of the changed region under the rendered cursor. -/
def cursorRegion (ctx : EncodeContext) (changed : Region) : Region :=
  match ctx.renderedCursor with
  | some r => changed ∩ Region.ofRect r
  | none => ∅

/-- The rest of the changed region. -/
def outsideCursor (ctx : EncodeContext) (changed : Region) : Region :=
  match ctx.renderedCursor with
  | some r => changed \ Region.ofRect r
  | none => changed

/-- The number of rectangles that is announced. -/
def nRects (ctx : EncodeContext) (m : EncodeManager) (ui : UpdateInfo) : ℕ :=
  if ctx.cp.supportsLastRect then 0xFFFF
  else ui.copied.numRects + ui.copypassed.length +
    m.computeNumRects ctx (outsideCursor ctx ui.changed) +
    m.computeNumRects ctx (cursorRegion ctx ui.changed) +
    (if ctx.watermarkData then 1 else 0)

/-- `doUpdate` between the header and the end. -/
def writeBody (ctx : EncodeContext) (ui : UpdateInfo) (m : EncodeManager) (w : SMsgWriter) :
    Except WriterError SMsgWriter := do
  let w ← writeCopyRects ctx ui.copied ui.copyDelta w
  let w ← writeCopyPassRects ctx ui.copypassed w
  let w ← m.writePixels ctx (outsideCursor ctx ui.changed) (cursorRegion ctx ui.changed) w
  writeWatermark ctx w

def doUpdate (ctx : EncodeContext) (ui : UpdateInfo) (m : EncodeManager) (w : SMsgWriter) :
    Except WriterError (EncodeManager × SMsgWriter) := do
  let w ← w.writeFramebufferUpdateStart ctx.cp (m.nRects ctx ui)
  let w ← m.writeBody ctx ui w
  let w ← w.writeFramebufferUpdateEnd ctx.cp
  .ok (m.detect ctx (outsideCursor ctx ui.changed), w)

def writeUpdate (ctx : EncodeContext) (ui : UpdateInfo) (m : EncodeManager)
    (w : SMsgWriter) : Except WriterError (EncodeManager × SMsgWriter) :=
  m.doUpdate ctx ui w

/-- `refresh` is what `getLosslessRefresh` picks from the lossy region. -/
def writeLosslessRefresh (ctx : EncodeContext) (refresh : Region) (m : EncodeManager)
    (w : SMsgWriter) : Except WriterError (EncodeManager × SMsgWriter) :=
  if m.videoDetected || ctx.videoModeAvailable then .ok (m, w)
  else m.doUpdate ctx ⟨refresh, ∅, 0, []⟩ w

end EncodeManager

end KasmVNC.Rfb
