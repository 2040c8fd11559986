import KasmVNC.Rfb.DlpRegion
import KasmVNC.Rfb.UpdateRequests
import KasmVNC.Rfb.ScrollSound

/-!
# Frames of the server

`VNCServerST` collects in one comparer what is drawn on the screen. Once a frame it makes the
blacked out copy if there is a DLP region, lets the comparer find out what has changed and
what was scrolled, and hands the result to every client; each client sends its update when it
can. The encoding is taken as lossless, so a client shows the pixels that are sent to it. A
framebuffer has 32 bits for a pixel and no padding in its rows.
-/

namespace KasmVNC.Rfb

open KasmVNC.Lib ComparingUpdateTracker

variable {C : Type*} {dir : ScrollDirection}

/-! ## The state -/

/-- The sides of the framebuffer. -/
structure FbSize where
  width : ℕ
  height : ℕ
  width_lt : width < 2 ^ 31

namespace FbSize

def rect (size : FbSize) : Rect := ⟨(0, 0), (size.width, size.height)⟩

def region (size : FbSize) : Region := Region.ofRect size.rect

/-- The memory of an image. -/
def buffer (size : FbSize) (image : Point → C) : PixelBuffer C :=
  ⟨size.width, size.height, size.width, linear size.width image, size.width_lt⟩

end FbSize

/-- The settings of the server. -/
structure FrameSettings (C : Type*) where
  /-- `DLP_Region`, if one is configured. -/
  dlpRegion : Option DLPRegion
  /-- A pixel of four zero bytes. -/
  black : C
  /-- `DLP_WatermarkImage` names an image. -/
  watermarkImage : Bool
  udpFullFrameFrequency : ℕ
  scroll : ScrollSettings
  hash : List C → ℕ
  /-- The pixel buffer is the memory the X server draws into; otherwise it is filled by
  `grabRegion`. -/
  directFbptr : Bool

/-- An authenticated connection, with what its client shows. -/
structure FrameClient (C : Type*) where
  cp : ConnParams
  upgradingToUdp : Bool
  updates : ClientUpdates
  image : Point → C

structure FrameServer (C : Type*) (dir : ScrollDirection) where
  size : FbSize
  /-- What the X server has drawn. -/
  screen : Point → C
  pb : Point → C
  blackedpb : Option (Point → C)
  comparer : ComparingUpdateTracker C dir
  clients : List (FrameClient C)

/-! ## Drawing -/

/-- A new `ComparingUpdateTracker`; its hashes and its copy of the framebuffer are set up by
the first comparison that needs them. -/
def ComparingUpdateTracker.new (size : FbSize) (scrollHasher : ScrollHasher C dir)
    (oldFb : Point → C) : ComparingUpdateTracker C dir where
  tracker := ⟨size.region, ∅, (0, 0), true⟩
  oldFb := oldFb
  firstCompare := true
  enabled := true
  detectScroll := false
  scrollHasher := scrollHasher
  copyPassRects := []

namespace FrameServer

variable (cfg : FrameSettings C) (s : FrameServer C dir)

/-- Something is drawn, and the buffer shows it at once if it is the X server's own. -/
def drawn (screen : Point → C) : FrameServer C dir :=
  { s with screen := screen, pb := if cfg.directFbptr then screen else s.pb }

def addChanged (region : Region) : FrameServer C dir :=
  { s with comparer := { s.comparer with tracker := s.comparer.tracker.addChanged region } }

def addCopied (dest : Region) (delta : Point) : FrameServer C dir :=
  { s with comparer := { s.comparer with tracker := s.comparer.tracker.addCopied dest delta } }

/-- The screen is drawn on. -/
def draw (region : Region) (fresh : Point → C) : FrameServer C dir :=
  (s.drawn cfg (paint region fresh s.screen)).addChanged region

/-- An area of the screen is copied. The hooks make sure that no copy is to or from regions
outside the framebuffer. -/
def copy (dest : Region) (delta : Point) : FrameServer C dir :=
  let dest := ClippingUpdateTracker.copyable s.size.rect dest delta
  (s.drawn cfg (move ⟨dest, delta⟩ s.screen)).addCopied dest delta

end FrameServer

/-! ## Clients -/

namespace FrameClient

variable (cl : FrameClient C)

/-- `authSuccess`. While it was not authenticated, the connection may have been handed
copies of scrolled lines. -/
def authSuccess (size : FbSize) (image : Point → C) (copypassed : List CopyPassRect) :
    FrameClient C where
  cp := { width := size.width, height := size.height }
  upgradingToUdp := false
  updates := ⟨⟨size.region, ∅, (0, 0), false⟩, copypassed, ∅, false, ∅, false, false, ∅, 0⟩
  image := image

def pixelBufferChange (size : FbSize) : FrameClient C :=
  { cl with
    cp := { cl.cp with width := size.width, height := size.height }
    updates := { cl.updates with
      updates := cl.updates.updates.clear.addChanged size.region
      damagedCursorRegion :=
        if cl.cp.width ≠ 0 ∧ cl.cp.height ≠ 0 ∧
            (size.width ≠ cl.cp.width ∨ size.height ≠ cl.cp.height) then
          cl.updates.damagedCursorRegion ∩ size.region
        else cl.updates.damagedCursorRegion } }

def setEncodings (watermarkImage : Bool) (encodings : List ℤ) : FrameClient C :=
  { cl with cp := cl.cp.setEncodings watermarkImage encodings }

def udpUpgrade : FrameClient C := { cl with upgradingToUdp := true }

/-- The client's WebRTC connection is up. -/
def upgraded : FrameClient C :=
  { cl with
    upgradingToUdp := false
    cp := { cl.cp with useCopyRect := false, supportsUdp := true } }

def udpDowngrade (watermarkImage : Bool) : FrameClient C :=
  { cl with cp := { cl.cp with supportsUdp := false, useCopyRect := !watermarkImage } }

def framebufferUpdateRequest (r : Rect) (incremental : Bool) : FrameClient C :=
  let reqRgn := Region.ofRect (r.intersect ⟨(0, 0), (cl.cp.width, cl.cp.height)⟩)
  { cl with updates := { cl.updates with
      requested :=
        if !incremental || !cl.updates.continuousUpdates then cl.updates.requested ∪ reqRgn
        else cl.updates.requested
      updates :=
        if incremental then cl.updates.updates else cl.updates.updates.addChanged reqRgn } }

def enableContinuousUpdates (enable : Bool) (r : Rect) : FrameClient C :=
  if !cl.cp.supportsFence || !cl.cp.supportsContinuousUpdates then cl
  else
    { cl with updates := { cl.updates with
        continuousUpdates := enable
        cuRegion := Region.ofRect r
        requested := if enable then ∅ else cl.updates.requested } }

def renderedCursorChange (needRenderedCursor : Bool) : FrameClient C :=
  { cl with updates := { cl.updates with
      removeRenderedCursor :=
        cl.updates.removeRenderedCursor || cl.updates.damagedCursorRegion ≠ ∅
      updateRenderedCursor := cl.updates.updateRenderedCursor || needRenderedCursor } }

/-- What a frame hands to the client. -/
def addUpdate (ui : UpdateInfo) : FrameClient C :=
  let copied := cl.updates.addCopied ui.copied ui.copyDelta
  { cl with updates := (copied.addCopypassed ui.copypassed).addChanged ui.changed }

end FrameClient

/-- `upgradeClientToUdp`: the first client that has asked for it, at the right address. -/
def upgradeClientToUdp (sameAddress : FrameClient C → Bool) :
    List (FrameClient C) → List (FrameClient C)
  | [] => []
  | cl :: clients =>
    if cl.upgradingToUdp && sameAddress cl then cl.upgraded :: clients
    else cl :: upgradeClientToUdp sameAddress clients

section Clients

variable {P : FrameClient C → Prop} {clients : List (FrameClient C)}

theorem forall_mem_upgradeClientToUdp {sameAddress : FrameClient C → Bool}
    (h : ∀ cl ∈ clients, P cl) (hf : ∀ cl ∈ clients, P cl → P cl.upgraded) :
    ∀ cl ∈ upgradeClientToUdp sameAddress clients, P cl := by
  induction clients with
  | nil => exact h
  | cons first rest ih =>
    obtain ⟨hfirst, hrest⟩ := List.forall_mem_cons.mp h
    obtain ⟨hffirst, hfrest⟩ := List.forall_mem_cons.mp hf
    unfold upgradeClientToUdp
    split
    · exact List.forall_mem_cons.mpr ⟨hffirst hfirst, hrest⟩
    · exact List.forall_mem_cons.mpr ⟨hfirst, ih hrest hfrest⟩

end Clients

/-! ## Updates of a client -/

/-- What an update finds, besides the connection and the server. -/
structure UpdateInput (C : Type*) where
  /-- `blockCounter > 0` -/
  blocked : Bool
  needRenderedCursor : Bool
  /-- The effective rectangle and the pixels of the rendered cursor. -/
  cursorRect : Rect
  renderedCursor : Point → C
  needFakeUpdate : Bool
  lossyRegion : Region
  losslessDue : Bool
  /-- The rectangles that `getLosslessRefresh` grabs. -/
  refresh : Region
  /-- `videoDetected || video_mode_available` -/
  video : Bool

namespace FrameServer

variable (cfg : FrameSettings C) (s : FrameServer C dir)

def getPixelBuffer : Point → C :=
  if cfg.dlpRegion.isSome then s.blackedpb.getD s.pb else s.pb

/-- `getPendingRegion`. It asks the comparer, which then forgets the copies that have
changed. -/
def getPendingRegion (blocked : Bool) : FrameServer C dir × Region :=
  if blocked then (s, s.size.region)
  else if s.comparer.tracker.changed = ∅ ∧ s.comparer.tracker.copied = ∅ then (s, ∅)
  else
    let (tracker, ui) := s.comparer.tracker.getUpdateInfo s.size.region
    ({ s with comparer := { s.comparer with tracker } }, ui.changed ∪ ui.copied)

def updateContext (cl : FrameClient C) (i : UpdateInput C) : UpdateContext where
  useCopyRect := cl.cp.useCopyRect
  supportsUdp := cl.cp.supportsUdp
  screen := ⟨(0, 0), (cl.cp.width, cl.cp.height)⟩
  pending := (s.getPendingRegion i.blocked).2
  pbRect := s.size.rect
  needRenderedCursor := i.needRenderedCursor
  cursorRect := i.cursorRect
  udpFullFrameFrequency := cfg.udpFullFrameFrequency
  needFakeUpdate := i.needFakeUpdate
  lossyRegion := i.lossyRegion
  losslessDue := i.losslessDue

/-- What a client shows after an update: first the copies, then the copied lines of scrolls,
then the changed pixels. Those under a rendered cursor come from its own buffer. -/
def execute (i : UpdateInput C) (ui : UpdateInfo) (image : Point → C) : Point → C :=
  let cursor := if i.needRenderedCursor then Region.ofRect i.cursorRect else ∅
  paint (ui.changed ∩ cursor) i.renderedCursor
    (paint ui.changed (s.getPixelBuffer cfg) (moves (copyMoves ui.copypassed) (move ui.copy image)))

/-- What a client shows once the encode manager is done. -/
def encoded (i : UpdateInput C) (image : Point → C) : DataUpdate → Point → C
  | .nothing => image
  | .update ui => s.execute cfg i ui image
  | .losslessRefresh req =>
    if i.video then image
    else s.execute cfg i ⟨i.refresh ∩ i.lossyRegion ∩ req, ∅, (0, 0), []⟩ image

/-- What `writeDataUpdate` leaves of the connection and what it hands over. -/
def dataUpdate (cl : FrameClient C) (i : UpdateInput C) : ClientUpdates × DataUpdate :=
  cl.updates.writeDataUpdate (s.updateContext cfg cl i)

/-- Nothing is written without a request, nor before the end of the handshake, during a sync
fence or while there is congestion, which is an update that does not take place. -/
def Attempted (cl : FrameClient C) : Prop :=
  cl.updates.requested ≠ ∅ ∨ cl.updates.continuousUpdates = true

instance (cl : FrameClient C) : Decidable (Attempted cl) := inferInstanceAs (Decidable (_ ∨ _))

/-- `writeFramebufferUpdate` of one client, as far as pixels go. -/
def clientUpdate (i : UpdateInput C) (cl : FrameClient C) : FrameClient C :=
  if Attempted cl then
    let u := s.dataUpdate cfg cl i
    { cl with updates := u.1, image := s.encoded cfg i cl.image u.2 }
  else cl

/-- The comparer is only asked for what is pending if something is requested. -/
def writeFramebufferUpdate (n : ℕ) (i : UpdateInput C) : FrameServer C dir :=
  match s.clients[n]? with
  | none => s
  | some cl =>
    let after :=
      if Attempted cl ∧ cl.updates.request ≠ ∅ then (s.getPendingRegion i.blocked).1 else s
    { after with clients := s.clients.set n (s.clientUpdate cfg i cl) }

/-! ## Frames -/

/-- What the blacked out copy shows, with pixels of 32 bits. -/
def blackOut (cfg : FrameSettings C) (size : FbSize) (r : DLPRegion) (image : Point → C) :
    Point → C := fun p =>
  (r.translateDLPRegion size.width size.height).blackOutPixels cfg.black size.width size.height
    (linear size.width image) (linear size.width image) (p.2.toNat * size.width + p.1.toNat)

end FrameServer

/-- What a frame finds. -/
structure FrameInput where
  /-- `getComparerState()` -/
  comparing : Bool
  /-- There is one connection, and it did not get the last scroll yet. -/
  skipScrollDetection : Bool
  /-- The cursor, if some client has it drawn by the server. -/
  cursorReg : Region

namespace FrameServer

variable (cfg : FrameSettings C) (s : FrameServer C dir)

/-- `writeUpdate` before the comparison: black out, take the changes, grab what has changed,
and switch the comparer on or off. -/
def beginFrame (i : FrameInput) : FrameServer C dir × UpdateInfo :=
  let tracker :=
    if cfg.dlpRegion.isSome then s.comparer.tracker.enableCopyrect false else s.comparer.tracker
  let blackedpb := match cfg.dlpRegion with
    | some r => some (blackOut cfg s.size r s.pb)
    | none => s.blackedpb
  let (tracker, ui) := tracker.getUpdateInfo s.size.region
  let pb := if cfg.directFbptr then s.pb else paint (ui.changed ∪ ui.copied) s.screen s.pb
  ({ s with
      pb
      blackedpb
      comparer := { s.comparer with
        tracker
        enabled := i.comparing
        firstCompare := s.comparer.firstCompare || !i.comparing } },
    { ui with copypassed := s.comparer.copyPassRects })

/-- `ComparingUpdateTracker::getUpdateInfo` -/
def compareInfo (c : ComparingUpdateTracker C dir) (size : FbSize) : UpdateInfo :=
  { (c.tracker.getUpdateInfo size.region).2 with copypassed := c.copyPassRects }

/-- The comparer after a frame: its regions are cleared. -/
def clearComparer (c : ComparingUpdateTracker C dir) : ComparingUpdateTracker C dir :=
  { c with tracker := c.tracker.clear, copyPassRects := [] }

/-- The frame's update is handed to every client. -/
def addUpdates (ui : UpdateInfo) (c : ComparingUpdateTracker C dir) : FrameServer C dir :=
  { s with comparer := clearComparer c, clients := s.clients.map (·.addUpdate ui) }

/-- `writeUpdate`, up to the updates of the clients. -/
def writeUpdate [DecidableEq C] (i : FrameInput) : FrameServer C dir :=
  let begun := s.beginFrame cfg i
  match begun.1.comparer.compare cfg.scroll cfg.hash (s.size.buffer begun.1.pb)
      i.skipScrollDetection i.cursorReg with
  | .error _ => begun.1
  | .ok (c, altered) =>
    begun.1.addUpdates (if altered then compareInfo c s.size else begun.2) c

end FrameServer

/-! ## Runs -/

/-- What may happen to the server. Clients are numbered. -/
inductive FrameEvent (C : Type*) (dir : ScrollDirection)
  | draw (region : Region) (fresh : Point → C)
  | copy (dest : Region) (delta : Point)
  /-- A new framebuffer; the hash tables and pixels that are not set up yet are given. -/
  | setPixelBuffer (size : FbSize) (screen pb : Point → C) (scrollHasher : ScrollHasher C dir)
      (oldFb : Point → C)
  | authSuccess (image : Point → C) (copypassed : List CopyPassRect)
  | removeSocket (n : ℕ)
  | setEncodings (n : ℕ) (encodings : List ℤ)
  | udpUpgrade (n : ℕ)
  | upgradeClientToUdp (sameAddress : FrameClient C → Bool)
  | udpDowngrade (n : ℕ)
  | framebufferUpdateRequest (n : ℕ) (r : Rect) (incremental : Bool)
  | enableContinuousUpdates (n : ℕ) (enable : Bool) (r : Rect)
  | renderedCursorChange (n : ℕ) (needRenderedCursor : Bool)
  | writeUpdate (i : FrameInput)
  | writeFramebufferUpdate (n : ℕ) (i : UpdateInput C)

namespace FrameServer

variable (cfg : FrameSettings C) (s : FrameServer C dir)

/-- Something happens to one client only. -/
def onClient (n : ℕ) (f : FrameClient C → FrameClient C) : FrameServer C dir :=
  { s with clients := s.clients.modify n f }

def setPixelBuffer (size : FbSize) (screen pb : Point → C) (scrollHasher : ScrollHasher C dir)
    (oldFb : Point → C) : FrameServer C dir where
  size := size
  screen := screen
  pb := if cfg.directFbptr then screen else pb
  blackedpb := s.blackedpb
  comparer := .new size scrollHasher oldFb
  clients := s.clients.map (·.pixelBufferChange size)

def step [DecidableEq C] (s : FrameServer C dir) : FrameEvent C dir → FrameServer C dir
  | .draw region fresh => s.draw cfg region fresh
  | .copy dest delta => s.copy cfg dest delta
  | .setPixelBuffer size screen pb scrollHasher oldFb =>
    s.setPixelBuffer cfg size screen pb scrollHasher oldFb
  | .authSuccess image copypassed =>
    { s with clients := s.clients ++ [.authSuccess s.size image copypassed] }
  | .removeSocket n => { s with clients := s.clients.eraseIdx n }
  | .setEncodings n encodings => s.onClient n (·.setEncodings cfg.watermarkImage encodings)
  | .udpUpgrade n => s.onClient n (·.udpUpgrade)
  | .upgradeClientToUdp sameAddress =>
    { s with clients := KasmVNC.Rfb.upgradeClientToUdp sameAddress s.clients }
  | .udpDowngrade n => s.onClient n (·.udpDowngrade cfg.watermarkImage)
  | .framebufferUpdateRequest n r incremental =>
    s.onClient n (·.framebufferUpdateRequest r incremental)
  | .enableContinuousUpdates n enable r => s.onClient n (·.enableContinuousUpdates enable r)
  | .renderedCursorChange n need => s.onClient n (·.renderedCursorChange need)
  | .writeUpdate i => s.writeUpdate cfg i
  | .writeFramebufferUpdate n i => s.writeFramebufferUpdate cfg n i

/-- A frame hands every client the same, if the comparison succeeds. -/
theorem writeUpdate_clients [DecidableEq C] (i : FrameInput) :
    (s.writeUpdate cfg i).clients = s.clients ∨
      ∃ ui, (s.writeUpdate cfg i).clients = s.clients.map (·.addUpdate ui) := by
  unfold writeUpdate
  dsimp only
  split
  · exact .inl rfl
  · exact .inr ⟨_, rfl⟩

/-- A client's update leaves the others alone. -/
theorem writeFramebufferUpdate_clients (n : ℕ) (i : UpdateInput C) {cl : FrameClient C}
    (hcl : cl ∈ (s.writeFramebufferUpdate cfg n i).clients) :
    cl ∈ s.clients ∨ ∃ old, s.clients[n]? = some old ∧ cl = s.clientUpdate cfg i old := by
  unfold writeFramebufferUpdate at hcl
  cases hn : s.clients[n]? with
  | none =>
    rw [hn] at hcl
    exact .inl hcl
  | some old =>
    rw [hn] at hcl
    rcases List.mem_or_eq_of_mem_set hcl with hold | hnew
    · exact .inl hold
    · exact .inr ⟨old, rfl, hnew⟩

/-- A server whose desktop has just started. -/
def start (size : FbSize) (screen pb : Point → C) (scrollHasher : ScrollHasher C dir)
    (oldFb : Point → C) : FrameServer C dir where
  size := size
  screen := screen
  pb := if cfg.directFbptr then screen else pb
  blackedpb := none
  comparer := .new size scrollHasher oldFb
  clients := []

end FrameServer

end KasmVNC.Rfb
