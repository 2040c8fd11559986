import KasmVNC.Rfb.UpdateTracker

/-!
# Data updates of a connection

The framebuffer side of `VNCSConnectionST`: what a client has requested, what
it has not been told yet, and `writeDataUpdate`, which decides whether to send
anything and what. Encoding is a later stage; here the outcome is the update
handed to the encode manager.
-/

namespace KasmVNC.Rfb

open KasmVNC.Lib

/-- The members of `VNCSConnectionST` that `writeDataUpdate` works on. -/
structure ClientUpdates where
  updates : SimpleUpdateTracker
  copypassed : List CopyPassRect
  requested : Region
  continuousUpdates : Bool
  cuRegion : Region
  updateRenderedCursor : Bool
  removeRenderedCursor : Bool
  damagedCursorRegion : Region
  udpFramesSinceFull : ℕ
deriving DecidableEq

/-- What `writeDataUpdate` reads from elsewhere. -/
structure UpdateContext where
  /-- `cp.useCopyRect` -/
  useCopyRect : Bool
  /-- `cp.supportsUdp` -/
  supportsUdp : Bool
  /-- `cp.width`, `cp.height` -/
  screen : Rect
  /-- `server->getPendingRegion()` -/
  pending : Region
  /-- `server->pb->getRect()` -/
  pbRect : Rect
  needRenderedCursor : Bool
  /-- `server->getRenderedCursor()->getEffectiveRect()` -/
  cursorRect : Rect
  udpFullFrameFrequency : ℕ
  /-- `writer()->needFakeUpdate()` -/
  needFakeUpdate : Bool
  /-- `encodeManager.lossyRegion` -/
  lossyRegion : Region
  /-- `msSince(&lastRealUpdate) >= losslessThreshold` -/
  losslessDue : Bool

/-- What is handed to the encode manager. -/
inductive DataUpdate
  | nothing
  | update (ui : UpdateInfo)
  | losslessRefresh (req : Region)
deriving DecidableEq

namespace ClientUpdates

def addChanged (c : ClientUpdates) (region : Region) : ClientUpdates :=
  { c with updates := c.updates.addChanged region }

def addCopied (c : ClientUpdates) (dest : Region) (delta : Point) : ClientUpdates :=
  { c with updates := c.updates.addCopied dest delta }

/-- The union of the destination rectangles (`everything`). -/
def copypassDest (rects : List CopyPassRect) : Region :=
  rects.foldr (fun r acc => Region.ofRect r.rect ∪ acc) ∅

theorem mem_copypassDest {rects : List CopyPassRect} {p : Point} :
    p ∈ copypassDest rects ↔ ∃ r ∈ rects, p ∈ Region.ofRect r.rect := by
  induction rects with
  | nil => simp [copypassDest]
  | cons r rest ih =>
    rw [copypassDest, List.foldr_cons, Finset.mem_union, ← copypassDest, ih]
    simp

/-- A new list is only queued when the queue is empty. -/
def addCopypassed (c : ClientUpdates) (rects : List CopyPassRect) : ClientUpdates :=
  if c.copypassed ≠ [] then c.addChanged (copypassDest rects)
  else { c with copypassed := rects }

def getUpdateInfo (c : ClientUpdates) (req : Region) : ClientUpdates × UpdateInfo :=
  let (updates, ui) := c.updates.getUpdateInfo req
  ({ c with updates }, ui)

/-! ## `writeDataUpdate`, step by step -/

/-- See what the client has requested (if anything). -/
def request (c : ClientUpdates) : Region :=
  if c.continuousUpdates then c.cuRegion ∪ c.requested else c.requested

/-- If the previous position of the rendered cursor overlaps the source of the
copy, the copied cursor is repainted. -/
def repaintBogusCursor (ctx : UpdateContext) (ui : UpdateInfo) (c : ClientUpdates) :
    ClientUpdates × Bool :=
  if ui.copied ≠ ∅ ∧ c.damagedCursorRegion ≠ ∅ then
    let bogus := c.damagedCursorRegion.translate ui.copyDelta ∩ Region.ofRect ctx.pbRect
    if ui.copied ∩ bogus ≠ ∅ then (c.addChanged bogus, true) else (c, false)
  else (c, false)

def removeCursor (c : ClientUpdates) : ClientUpdates × Bool :=
  if c.removeRenderedCursor then
    ({ c.addChanged c.damagedCursorRegion with
        damagedCursorRegion := ∅, removeRenderedCursor := false }, true)
  else (c, false)

def updateCursor (ctx : UpdateContext) (c : ClientUpdates) : ClientUpdates × Bool :=
  if c.updateRenderedCursor then
    ({ c.addChanged (Region.ofRect ctx.cursorRect) with updateRenderedCursor := false }, true)
  else (c, false)

/-- The update information, taken again when the cursor added changes. -/
def collect (ctx : UpdateContext) (req : Region) (c : ClientUpdates) :
    ClientUpdates × UpdateInfo :=
  let (c, ui) := c.getUpdateInfo req
  let (c, bogus) := c.repaintBogusCursor ctx ui
  let (c, removed) := c.removeCursor
  let (c, updated) := c.updateCursor ctx
  if bogus || removed || updated then c.getUpdateInfo req else (c, ui)

/-- While the server has pending changes only a lossless refresh of settled
areas is possible. -/
def defer (ctx : UpdateContext) (copypassed : List CopyPassRect) (req : Region)
    (ui : UpdateInfo) : Region × UpdateInfo :=
  if ctx.pending ≠ ∅ then
    ((((req \ ctx.pending) \ ui.changed) \ ui.copied) \ copypassDest copypassed,
      { ui with changed := ∅, copied := ∅ })
  else (req, ui)

/-- Copies onto the rendered cursor become changes. -/
def renderCursor (ctx : UpdateContext) (c : ClientUpdates) (ui : UpdateInfo) :
    ClientUpdates × UpdateInfo :=
  if ctx.needRenderedCursor then
    let cursor := Region.ofRect ctx.cursorRect
    let ui :=
      if ui.copied ∩ cursor ≠ ∅ then
        { ui with changed := ui.changed ∪ (ui.copied ∩ cursor), copied := ui.copied \ cursor }
      else ui
    ({ c with damagedCursorRegion := c.damagedCursorRegion ∪ (ui.changed ∩ cursor) }, ui)
  else (c, ui)

def attachCopypass (ctx : UpdateContext) (c : ClientUpdates) (ui : UpdateInfo) :
    UpdateInfo :=
  { ui with copypassed := if ctx.pending ≠ ∅ then [] else c.copypassed }

def countsUdpFrames (ctx : UpdateContext) : Bool :=
  ctx.udpFullFrameFrequency ≠ 0 && ctx.supportsUdp

/-- Every `udpFullFrameFrequency` updates a UDP client gets the whole screen. -/
def fullFrame (ctx : UpdateContext) (c : ClientUpdates) (ui : UpdateInfo) :
    ClientUpdates × UpdateInfo :=
  if countsUdpFrames ctx ∧ c.udpFramesSinceFull ≥ ctx.udpFullFrameFrequency then
    ({ c with udpFramesSinceFull := 0 },
      { ui with changed := ui.changed ∪ Region.ofRect ctx.screen })
  else (c, ui)

/-- After sending: the request is answered. -/
def answered (ctx : UpdateContext) (req : Region) (c : ClientUpdates) : ClientUpdates :=
  { c with
    updates := c.updates.subtract req
    requested := ∅
    udpFramesSinceFull :=
      if countsUdpFrames ctx then c.udpFramesSinceFull + 1 else c.udpFramesSinceFull }

/-- `EncodeManager::needsLosslessRefresh` -/
def needsLosslessRefresh (ctx : UpdateContext) (req : Region) : Bool :=
  ctx.lossyRegion ∩ req ≠ ∅

/-- The last part: return if there is nothing to send, else send and clear. -/
def send (ctx : UpdateContext) (req : Region) (ui : UpdateInfo) (c : ClientUpdates) :
    ClientUpdates × DataUpdate :=
  if ui.isEmpty && !ctx.needFakeUpdate &&
      (!needsLosslessRefresh ctx req || !ctx.losslessDue) then
    (c, .nothing)
  else if !ui.isEmpty then
    (answered ctx req { c with copypassed := [] }, .update ui)
  else
    (answered ctx req c, .losslessRefresh req)

def writeDataUpdate (ctx : UpdateContext) (c : ClientUpdates) :
    ClientUpdates × DataUpdate :=
  let c := { c with updates := c.updates.enableCopyrect ctx.useCopyRect }
  let req := c.request
  if req = ∅ then (c, .nothing)
  else
    let (c, ui) := c.collect ctx req
    let (req, ui) := defer ctx c.copypassed req ui
    let (c, ui) := c.renderCursor ctx ui
    let ui := c.attachCopypass ctx ui
    let (c, ui) := c.fullFrame ctx ui
    c.send ctx req ui

end ClientUpdates

end KasmVNC.Rfb
