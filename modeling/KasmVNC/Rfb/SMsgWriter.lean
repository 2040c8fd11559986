import KasmVNC.Lib.Run
import KasmVNC.Rfb.ConnParams
import KasmVNC.Rfb.Fence
import Mathlib.Data.Finset.Card

/-!
# Writing framebuffer updates

`rfb::SMsgWriter` as far as framebuffer updates go: an update message announces
the number of its rectangles, counts them while they are written and complains
when the two differ. Pseudo-rectangles (cursor shapes, the desktop name, the LED
state) are not written at once: the setters leave a mark, and the next update
starts with all of them. Support by the client is checked when the mark is set
and again when the rectangle is written.

The two output streams are lists of headers; the pixels and strings after a
rectangle's header are left out.
-/

namespace KasmVNC.Rfb

open KasmVNC.Lib

/-- What the writer puts into a stream. -/
inductive WriterOut
  /-- A FramebufferUpdate message with its U16 rectangle count. -/
  | framebufferUpdate (nRects : ℕ)
  | rect (x y width height encoding : ℤ)
  /-- The source of a CopyRect rectangle. -/
  | copySource (x y : ℤ)
  /-- The empty rectangle with encoding LastRect that ends an update without a
  count. Its UDP form carries the number of rectangles as x position. -/
  | lastRect (x : ℤ)
  | fence (flags : BitVec 32) (data : List (BitVec 8))
  | endOfContinuousUpdates
deriving DecidableEq, Repr

/-- What the writer throws. -/
inductive WriterError
  /-- Something that the client or the server does not support. -/
  | refused (msg : String)
  /-- More or fewer rectangles than the header announced. -/
  | outOfSync (site : String)
deriving DecidableEq, Repr

def WriterError.str : WriterError → String
  | .refused msg => msg
  | .outOfSync site => "SMsgWriter::" ++ site ++ ": nRects out of sync"

def WriterOut.isLastRect : WriterOut → Bool
  | .lastRect _ => true
  | _ => false

/-- Nothing in the list ends an update. -/
def Unmarked (outs : List WriterOut) : Prop := ∀ out ∈ outs, out.isLastRect = false

theorem unmarked_nil : Unmarked [] := fun _ h => absurd h List.not_mem_nil

theorem unmarked_cons {out : WriterOut} {outs : List WriterOut} :
    Unmarked (out :: outs) ↔ out.isLastRect = false ∧ Unmarked outs :=
  List.forall_mem_cons

theorem unmarked_append {outs outs' : List WriterOut} :
    Unmarked (outs ++ outs') ↔ Unmarked outs ∧ Unmarked outs' :=
  List.forall_mem_append

/-- The pseudo-rectangles that can accompany pixels, each with a `need` mark. -/
inductive PseudoRect
  | setCursor
  | setXCursor
  | setCursorWithAlpha
  | setVMWareCursor
  | cursorPos
  | setDesktopName
  | ledState
  | qemuKeyEvent
deriving DecidableEq, Repr

structure ExtendedDesktopSizeMsg where
  reason : ℕ
  result : ℕ
  fbWidth : ℕ
  fbHeight : ℕ
  layout : ScreenSet
deriving DecidableEq

structure SMsgWriter where
  nRectsInUpdate : ℕ := 0
  dataRectsInUpdate : ℕ := 0
  nRectsInHeader : ℕ := 0
  needSetDesktopSize : Bool := false
  needExtendedDesktopSize : Bool := false
  extendedDesktopSizeMsgs : List ExtendedDesktopSizeMsg := []
  /-- The pseudo-rectangles whose `need` mark is set. -/
  need : Finset PseudoRect := ∅
  os : List WriterOut := []
  udps : List WriterOut := []
deriving DecidableEq

namespace SMsgWriter

/-! ## Marks -/

/-- The setters that ask for a pseudo-rectangle if the client supports it. -/
def mark (w : SMsgWriter) (supported : Bool) (p : PseudoRect) : SMsgWriter × Bool :=
  if supported then ({ w with need := insert p w.need }, true) else (w, false)

def writeSetDesktopSize (cp : ConnParams) (w : SMsgWriter) : SMsgWriter × Bool :=
  if cp.supportsDesktopResize then ({ w with needSetDesktopSize := true }, true)
  else (w, false)

def writeExtendedDesktopSize (cp : ConnParams) (w : SMsgWriter) : SMsgWriter × Bool :=
  if cp.supportsExtendedDesktopSize then ({ w with needExtendedDesktopSize := true }, true)
  else (w, false)

/-- The overload of `writeExtendedDesktopSize` that queues one message. -/
def queueExtendedDesktopSize (cp : ConnParams) (msg : ExtendedDesktopSizeMsg)
    (w : SMsgWriter) : SMsgWriter × Bool :=
  if cp.supportsExtendedDesktopSize then
    ({ w with extendedDesktopSizeMsgs := w.extendedDesktopSizeMsgs ++ [msg] }, true)
  else (w, false)

def writeSetDesktopName (cp : ConnParams) (w : SMsgWriter) : SMsgWriter × Bool :=
  w.mark cp.supportsDesktopRename .setDesktopName

def writeSetCursor (cp : ConnParams) (w : SMsgWriter) : SMsgWriter × Bool :=
  w.mark cp.supportsLocalCursor .setCursor

def writeSetXCursor (cp : ConnParams) (w : SMsgWriter) : SMsgWriter × Bool :=
  w.mark cp.supportsLocalXCursor .setXCursor

def writeSetCursorWithAlpha (cp : ConnParams) (w : SMsgWriter) : SMsgWriter × Bool :=
  w.mark cp.supportsLocalCursorWithAlpha .setCursorWithAlpha

def writeSetVMwareCursor (cp : ConnParams) (w : SMsgWriter) : SMsgWriter × Bool :=
  w.mark cp.supportsVMWareCursor .setVMWareCursor

/-- The one setter that throws instead of declining. -/
def writeCursorPos (cp : ConnParams) (w : SMsgWriter) : Except WriterError SMsgWriter :=
  if cp.supportsEncoding pseudoEncodingVMwareCursorPosition then
    .ok { w with need := insert .cursorPos w.need }
  else .error (.refused "Client does not support cursor position")

def writeLEDState (cp : ConnParams) (w : SMsgWriter) : SMsgWriter × Bool :=
  w.mark (cp.supportsLEDState && cp.ledState != ledUnknown) .ledState

def writeQEMUKeyEvent (cp : ConnParams) (w : SMsgWriter) : SMsgWriter × Bool :=
  w.mark cp.supportsQEMUKeyEvent .qemuKeyEvent

def needNoDataUpdate (w : SMsgWriter) : Bool :=
  w.needSetDesktopSize || w.needExtendedDesktopSize || !w.extendedDesktopSizeMsgs.isEmpty

def needFakeUpdate (w : SMsgWriter) : Bool := w.need ≠ ∅ || w.needNoDataUpdate

/-! ## Messages outside updates -/

def writeFence (cp : ConnParams) (flags : BitVec 32) (data : List (BitVec 8))
    (w : SMsgWriter) : Except WriterError SMsgWriter :=
  if !cp.supportsFence then .error (.refused "Client does not support fences")
  else if data.length > 64 then .error (.refused "Too large fence payload")
  else if flags &&& ~~~fenceFlagsSupported ≠ 0 then .error (.refused "Unknown fence flags")
  else .ok { w with os := w.os ++ [.fence flags data] }

def writeEndOfContinuousUpdates (cp : ConnParams) (w : SMsgWriter) :
    Except WriterError SMsgWriter :=
  if !cp.supportsContinuousUpdates then
    .error (.refused "Client does not support continuous updates")
  else .ok { w with os := w.os ++ [.endOfContinuousUpdates] }

/-! ## Rectangles -/

/-- `++nRectsInUpdate > nRectsInHeader && nRectsInHeader` -/
def countRect (w : SMsgWriter) (site : String) : Except WriterError SMsgWriter :=
  if w.nRectsInUpdate + 1 > w.nRectsInHeader ∧ w.nRectsInHeader ≠ 0 then
    .error (.outOfSync site)
  else .ok { w with nRectsInUpdate := w.nRectsInUpdate + 1 }

/-- A pseudo-rectangle: the client must support it and the header must have
room for it. -/
def writePseudoRect (w : SMsgWriter) (supported : Bool) (refusal site : String)
    (out : WriterOut) : Except WriterError SMsgWriter :=
  if !supported then .error (.refused refusal)
  else w.countRect site >>= fun w => .ok { w with os := w.os ++ [out] }

/-- The header of a cursor shape: the hotspot stands in the place of the
position. -/
def cursorRect (cursor : Cursor) (encoding : ℤ) : WriterOut :=
  .rect cursor.hotspot.1 cursor.hotspot.2 cursor.width cursor.height encoding

def writeSetCursorRect (cp : ConnParams) (w : SMsgWriter) : Except WriterError SMsgWriter :=
  w.writePseudoRect cp.supportsLocalCursor "Client does not support local cursors"
    "writeSetCursorRect" (cursorRect cp.cursor pseudoEncodingCursor)

def writeSetXCursorRect (cp : ConnParams) (w : SMsgWriter) : Except WriterError SMsgWriter :=
  w.writePseudoRect cp.supportsLocalXCursor "Client does not support local cursors"
    "writeSetXCursorRect" (cursorRect cp.cursor pseudoEncodingXCursor)

def writeSetCursorWithAlphaRect (cp : ConnParams) (w : SMsgWriter) :
    Except WriterError SMsgWriter :=
  w.writePseudoRect cp.supportsLocalCursorWithAlpha "Client does not support local cursors"
    "writeSetCursorWithAlphaRect" (cursorRect cp.cursor pseudoEncodingCursorWithAlpha)

def writeSetVMwareCursorRect (cp : ConnParams) (w : SMsgWriter) :
    Except WriterError SMsgWriter :=
  w.writePseudoRect cp.supportsVMWareCursor "Client does not support local cursors"
    "writeSetVMwareCursorRect" (cursorRect cp.cursor pseudoEncodingVMwareCursor)

/-- The complaint about the count carries the name of the cursor shape. -/
def writeSetVMwareCursorPositionRect (cp : ConnParams) (w : SMsgWriter) :
    Except WriterError SMsgWriter :=
  w.writePseudoRect (cp.supportsEncoding pseudoEncodingVMwareCursorPosition)
    "Client does not support cursor position" "writeSetVMwareCursorRect"
    (.rect cp.cursorPos.1 cp.cursorPos.2 0 0 pseudoEncodingVMwareCursorPosition)

def writeSetDesktopNameRect (cp : ConnParams) (w : SMsgWriter) :
    Except WriterError SMsgWriter :=
  w.writePseudoRect cp.supportsDesktopRename "Client does not support desktop rename"
    "writeSetDesktopNameRect" (.rect 0 0 0 0 pseudoEncodingDesktopName)

def writeLEDStateRect (cp : ConnParams) (w : SMsgWriter) : Except WriterError SMsgWriter :=
  if !cp.supportsLEDState then .error (.refused "Client does not support LED state updates")
  else w.writePseudoRect (cp.ledState != ledUnknown)
    "Server does not support LED state updates" "writeLEDStateRect"
    (.rect 0 0 0 0 pseudoEncodingLEDState)

def writeQEMUKeyEventRect (cp : ConnParams) (w : SMsgWriter) : Except WriterError SMsgWriter :=
  w.writePseudoRect cp.supportsQEMUKeyEvent
    "Client does not support QEMU extended key events" "writeQEMUKeyEventRect"
    (.rect 0 0 0 0 pseudoEncodingQEMUKeyEvent)

def writeSetDesktopSizeRect (cp : ConnParams) (w : SMsgWriter) : Except WriterError SMsgWriter :=
  w.writePseudoRect cp.supportsDesktopResize "Client does not support desktop resize"
    "writeSetDesktopSizeRect" (.rect 0 0 cp.width cp.height pseudoEncodingDesktopSize)

def writeExtendedDesktopSizeRect (cp : ConnParams) (msg : ExtendedDesktopSizeMsg)
    (w : SMsgWriter) : Except WriterError SMsgWriter :=
  w.writePseudoRect cp.supportsExtendedDesktopSize
    "Client does not support extended desktop resize" "writeExtendedDesktopSizeRect"
    (.rect msg.reason msg.result msg.fbWidth msg.fbHeight pseudoEncodingExtendedDesktopSize)

end SMsgWriter

namespace PseudoRect

/-- What must hold of the client for the rectangle to be written. -/
def supported (cp : ConnParams) : PseudoRect → Bool
  | .setCursor => cp.supportsLocalCursor
  | .setXCursor => cp.supportsLocalXCursor
  | .setCursorWithAlpha => cp.supportsLocalCursorWithAlpha
  | .setVMWareCursor => cp.supportsVMWareCursor
  | .cursorPos => cp.supportsEncoding pseudoEncodingVMwareCursorPosition
  | .setDesktopName => cp.supportsDesktopRename
  | .ledState => cp.supportsLEDState && cp.ledState != ledUnknown
  | .qemuKeyEvent => cp.supportsQEMUKeyEvent

/-- The part of `writePseudoRects` that writes this rectangle. -/
def write (cp : ConnParams) (w : SMsgWriter) : PseudoRect → Except WriterError SMsgWriter
  | .setCursor => w.writeSetCursorRect cp
  | .setXCursor => w.writeSetXCursorRect cp
  | .setCursorWithAlpha => w.writeSetCursorWithAlphaRect cp
  | .setVMWareCursor => w.writeSetVMwareCursorRect cp
  | .cursorPos =>
    if cp.supportsEncoding pseudoEncodingVMwareCursorPosition then
      w.writeSetVMwareCursorPositionRect cp
    else .error (.refused "Client does not support cursor position")
  | .setDesktopName => w.writeSetDesktopNameRect cp
  | .ledState => w.writeLEDStateRect cp
  | .qemuKeyEvent => w.writeQEMUKeyEventRect cp

/-- All of them, in the order in which `writePseudoRects` writes them. -/
def order : List PseudoRect :=
  [.setCursor, .setXCursor, .setCursorWithAlpha, .setVMWareCursor, .cursorPos,
    .setDesktopName, .ledState, .qemuKeyEvent]

theorem mem_order (p : PseudoRect) : p ∈ order := by cases p <;> decide

end PseudoRect

namespace SMsgWriter

/-! ## Updates -/

/-- One of the blocks of `writePseudoRects`. -/
def writeNeeded (cp : ConnParams) (w : SMsgWriter) (p : PseudoRect) :
    Except WriterError SMsgWriter :=
  if p ∈ w.need then
    p.write cp w >>= fun w => .ok { w with need := w.need.erase p }
  else .ok w

def writePseudoRects (cp : ConnParams) (w : SMsgWriter) : Except WriterError SMsgWriter :=
  PseudoRect.order.foldlM (writeNeeded cp) w

def writeIf (b : Bool) (write : SMsgWriter → Except WriterError SMsgWriter) (w : SMsgWriter) :
    Except WriterError SMsgWriter :=
  if b then write w else .ok w

def writeNoDataRects (cp : ConnParams) (w : SMsgWriter) : Except WriterError SMsgWriter := do
  -- the specific messages first, then the current layout, then the plain size
  let w ← w.extendedDesktopSizeMsgs.foldlM (fun w msg => w.writeExtendedDesktopSizeRect cp msg) w
  let w := { w with extendedDesktopSizeMsgs := [] }
  let w ← w.writeIf w.needExtendedDesktopSize
    (writeExtendedDesktopSizeRect cp ⟨0, 0, cp.width, cp.height, cp.screenLayout⟩)
  let w := { w with needExtendedDesktopSize := false }
  let w ← w.writeIf w.needSetDesktopSize (writeSetDesktopSizeRect cp)
  .ok { w with needSetDesktopSize := false }

/-- The rectangle count after the pending pseudo-rectangles are added; 0xFFFF
stands for an unknown number. -/
def announced (w : SMsgWriter) (nRects : ℕ) : ℕ :=
  if nRects ≠ 0xFFFF then nRects + w.need.card else nRects

/-- The state before the pseudo-rectangles of an update are written. -/
def startUpdate (w : SMsgWriter) (nRects : ℕ) : SMsgWriter :=
  { w with
    os := w.os ++ [.framebufferUpdate (w.announced nRects % 65536)]
    nRectsInUpdate := 0
    dataRectsInUpdate := 0
    nRectsInHeader := if w.announced nRects = 0xFFFF then 0 else w.announced nRects }

def writeFramebufferUpdateStart (cp : ConnParams) (nRects : ℕ) (w : SMsgWriter) :
    Except WriterError SMsgWriter :=
  (w.startUpdate nRects).writePseudoRects cp

/-- The markers after an update without a count. -/
def writeLastRect (cp : ConnParams) (w : SMsgWriter) : SMsgWriter :=
  { w with
    os := w.os ++ [.lastRect 0]
    udps := if cp.supportsUdp then w.udps ++ [.lastRect w.dataRectsInUpdate] else w.udps }

def writeFramebufferUpdateEnd (cp : ConnParams) (w : SMsgWriter) : Except WriterError SMsgWriter :=
  if w.nRectsInUpdate ≠ w.nRectsInHeader ∧ w.nRectsInHeader ≠ 0 then
    .error (.outOfSync "writeFramebufferUpdateEnd")
  else if w.nRectsInHeader = 0 then .ok (w.writeLastRect cp)
  else .ok w

/-- Rectangles with pixels go to the UDP stream if the client has one. -/
def emit (cp : ConnParams) (out : WriterOut) (w : SMsgWriter) : SMsgWriter :=
  if cp.supportsUdp then { w with udps := w.udps ++ [out] }
  else { w with os := w.os ++ [out] }

def startRect (cp : ConnParams) (r : Rect) (encoding : ℤ) (w : SMsgWriter) :
    Except WriterError SMsgWriter := do
  let w ← w.countRect "startRect"
  let w := { w with dataRectsInUpdate := w.dataRectsInUpdate + 1 }
  .ok (w.emit cp (.rect r.tl.1 r.tl.2 r.width r.height encoding))

def writeCopyRect (cp : ConnParams) (r : Rect) (srcX srcY : ℤ) (w : SMsgWriter) :
    Except WriterError SMsgWriter := do
  let w ← w.startRect cp r encodingCopyRect
  .ok (w.emit cp (.copySource srcX srcY))

/-- The number of rectangles of an update without pixels. -/
def noDataRects (w : SMsgWriter) : ℕ :=
  (if w.needSetDesktopSize then 1 else 0) + (if w.needExtendedDesktopSize then 1 else 0) +
    w.extendedDesktopSizeMsgs.length

def writeNoDataUpdate (cp : ConnParams) (w : SMsgWriter) : Except WriterError SMsgWriter := do
  let w ← w.writeFramebufferUpdateStart cp w.noDataRects
  let w ← w.writeNoDataRects cp
  w.writeFramebufferUpdateEnd cp

/-! ## When writing succeeds -/

/-- The header has room for `n` more rectangles, or makes no promise. -/
def Room (w : SMsgWriter) (n : ℕ) : Prop :=
  w.nRectsInHeader = 0 ∨ w.nRectsInUpdate + n ≤ w.nRectsInHeader

theorem countRect_ok {w : SMsgWriter} (h : w.Room 1) (site : String) :
    w.countRect site = .ok { w with nRectsInUpdate := w.nRectsInUpdate + 1 } := by
  rw [countRect, if_neg]
  rintro ⟨hover, hheader⟩
  rcases h with h | h
  · exact hheader h
  · omega

/-- The state after `n` pseudo-rectangles with the given headers. -/
def wrote (w : SMsgWriter) (outs : List WriterOut) : SMsgWriter :=
  { w with nRectsInUpdate := w.nRectsInUpdate + outs.length, os := w.os ++ outs }

theorem writePseudoRect_ok {w : SMsgWriter} {supported : Bool} (hs : supported = true)
    (h : w.Room 1) (refusal site : String) (out : WriterOut) :
    w.writePseudoRect supported refusal site out = .ok (w.wrote [out]) := by
  rw [writePseudoRect, hs, countRect_ok h]
  rfl

theorem wrote_nil (w : SMsgWriter) : w.wrote [] = w := by simp [wrote]

theorem wrote_append (w : SMsgWriter) (outs outs' : List WriterOut) :
    (w.wrote outs).wrote outs' = w.wrote (outs ++ outs') := by
  simp [wrote, add_assoc]

theorem Room.mono {w : SMsgWriter} {m n : ℕ} (h : w.Room n) (hmn : m ≤ n) : w.Room m := by
  rcases h with h | h
  · exact Or.inl h
  · exact Or.inr (by omega)

theorem Room.wrote {w : SMsgWriter} {n : ℕ} {outs : List WriterOut}
    (h : w.Room (outs.length + n)) : (w.wrote outs).Room n := by
  rcases h with h | h
  · exact Or.inl h
  · refine Or.inr ?_
    show w.nRectsInUpdate + outs.length + n ≤ w.nRectsInHeader
    omega

theorem Room.wrote_cons {w : SMsgWriter} {n : ℕ} (h : w.Room (n + 1)) (out : WriterOut) :
    (w.wrote [out]).Room n :=
  Room.wrote (by rwa [List.length_singleton, add_comm])

theorem write_ok {cp : ConnParams} {w : SMsgWriter} {p : PseudoRect}
    (hp : p.supported cp = true) (h : w.Room 1) :
    ∃ out, out.isLastRect = false ∧ p.write cp w = .ok (w.wrote [out]) := by
  cases p with
  | cursorPos =>
    exact ⟨_, rfl, (if_pos hp).trans (writePseudoRect_ok hp h _ _ _)⟩
  | ledState =>
    have hboth : cp.supportsLEDState = true ∧ (cp.ledState != ledUnknown) = true := by
      simpa only [PseudoRect.supported, Bool.and_eq_true] using hp
    exact ⟨_, rfl, (if_neg (by simp [hboth.1])).trans (writePseudoRect_ok hboth.2 h _ _ _)⟩
  | _ => exact ⟨_, rfl, writePseudoRect_ok hp h _ _ _⟩

/-- The pending rectangles of a list are all written, and their marks removed. -/
theorem writeNeeded_foldlM (cp : ConnParams) : ∀ (ps : List PseudoRect) {w : SMsgWriter},
    (∀ p ∈ w.need, p.supported cp = true) → w.Room w.need.card →
    ∃ outs, outs.length + (w.need.filter (· ∉ ps)).card = w.need.card ∧ Unmarked outs ∧
      ps.foldlM (writeNeeded cp) w =
        .ok { w.wrote outs with need := w.need.filter (· ∉ ps) }
  | [], w, _, _ => ⟨[], by simp, unmarked_nil, by simp [wrote_nil, pure, Except.pure]⟩
  | p :: ps, w, hs, hroom => by
    rw [List.foldlM_cons]
    by_cases hp : p ∈ w.need
    · have hcard : (w.need.erase p).card + 1 = w.need.card :=
        Finset.card_erase_add_one hp
      obtain ⟨out, hmark, hout⟩ := write_ok (hs p hp) (hroom.mono (by omega))
      have hstep : writeNeeded cp w p =
          .ok { w.wrote [out] with need := w.need.erase p } := by
        rw [writeNeeded, if_pos hp, hout]
        rfl
      have hroom' : (w.wrote [out]).Room (w.need.erase p).card :=
        Room.wrote_cons (by rwa [hcard]) out
      obtain ⟨outs, hlen, hmarks, hrest⟩ := writeNeeded_foldlM cp ps
        (w := { w.wrote [out] with need := w.need.erase p })
        (fun q hq => hs q (Finset.mem_of_mem_erase hq)) hroom'
      have hneed : (w.need.erase p).filter (· ∉ ps) =
          w.need.filter (· ∉ p :: ps) := by
        ext q
        simp only [Finset.mem_filter, Finset.mem_erase, List.mem_cons, not_or]
        tauto
      refine ⟨out :: outs, ?_, unmarked_cons.mpr ⟨hmark, hmarks⟩, ?_⟩
      · have hrest : outs.length + ((w.need.erase p).filter (· ∉ ps)).card =
            (w.need.erase p).card := hlen
        rw [← hneed, List.length_cons]
        omega
      · rw [hstep, ← hneed]
        refine Eq.trans hrest ?_
        simp [wrote, add_assoc, add_comm 1]
    · obtain ⟨outs, hlen, hmarks, hrest⟩ := writeNeeded_foldlM cp ps hs hroom
      have hneed : w.need.filter (· ∉ ps) = w.need.filter (· ∉ p :: ps) := by
        refine Finset.filter_congr fun q hq => ?_
        have hqp : q ≠ p := fun h => hp (h ▸ hq)
        simp [hqp]
      refine ⟨outs, hneed ▸ hlen, hmarks, ?_⟩
      rw [writeNeeded, if_neg hp, ← hneed]
      exact hrest

theorem write_refused {cp : ConnParams} {p : PseudoRect} (hp : p.supported cp = false)
    (w : SMsgWriter) : ∃ msg, p.write cp w = .error (.refused msg) := by
  cases p with
  | cursorPos => exact ⟨_, if_neg (by simpa [PseudoRect.supported] using hp)⟩
  | ledState =>
    by_cases hled : cp.supportsLEDState = true
    · have hunknown : (cp.ledState != ledUnknown) = false := by
        simpa [PseudoRect.supported, hled] using hp
      exact ⟨_, (if_neg (by simp [hled])).trans (if_pos (congrArg not hunknown))⟩
    · exact ⟨_, if_pos (by simpa using hled)⟩
  | _ => exact ⟨_, if_pos (congrArg not hp)⟩

/-- A pending rectangle that cannot be written stops the update. -/
theorem writeNeeded_refused {cp : ConnParams} {p : PseudoRect} (hp : p.supported cp = false) :
    ∀ (ps : List PseudoRect) {w : SMsgWriter}, p ∈ w.need → p ∈ ps → w.Room w.need.card →
      ∃ msg, ps.foldlM (writeNeeded cp) w = .error (.refused msg)
  | q :: ps, w, hneed, hps, hroom => by
    rw [List.foldlM_cons]
    by_cases hq : q ∈ w.need
    · cases hsupported : q.supported cp with
      | false =>
        obtain ⟨msg, hmsg⟩ := write_refused hsupported w
        refine ⟨msg, ?_⟩
        rw [writeNeeded, if_pos hq, hmsg]
        rfl
      | true =>
        have hne : p ≠ q := fun h => by rw [h, hsupported] at hp; cases hp
        have hcard : (w.need.erase q).card + 1 = w.need.card :=
          Finset.card_erase_add_one hq
        obtain ⟨out, -, hout⟩ := write_ok hsupported (hroom.mono (by omega))
        obtain ⟨msg, hmsg⟩ := writeNeeded_refused hp ps
          (w := { w.wrote [out] with need := w.need.erase q })
          (Finset.mem_erase.mpr ⟨hne, hneed⟩)
          ((List.mem_cons.mp hps).resolve_left hne)
          (Room.wrote_cons (by rwa [hcard]) out)
        refine ⟨msg, ?_⟩
        rw [writeNeeded, if_pos hq, hout]
        exact hmsg
    · obtain ⟨msg, hmsg⟩ := writeNeeded_refused hp ps hneed
        ((List.mem_cons.mp hps).resolve_left fun h => hq (h ▸ hneed)) hroom
      refine ⟨msg, ?_⟩
      rw [writeNeeded, if_neg hq]
      exact hmsg

theorem writePseudoRects_ok {cp : ConnParams} {w : SMsgWriter}
    (hs : ∀ p ∈ w.need, p.supported cp = true) (hroom : w.Room w.need.card) :
    ∃ outs, outs.length = w.need.card ∧ Unmarked outs ∧
      w.writePseudoRects cp = .ok { w.wrote outs with need := ∅ } := by
  obtain ⟨outs, hlen, hmarks, hok⟩ := writeNeeded_foldlM cp PseudoRect.order hs hroom
  have hnone : w.need.filter (· ∉ PseudoRect.order) = ∅ :=
    Finset.filter_eq_empty_iff.mpr fun q _ => not_not.mpr q.mem_order
  rw [hnone] at hlen hok
  exact ⟨outs, by simpa using hlen, hmarks, hok⟩

/-- Every mark refers to something the client supports at the moment. -/
structure Writable (cp : ConnParams) (w : SMsgWriter) : Prop where
  need : ∀ p ∈ w.need, p.supported cp = true
  desktopSize : w.needSetDesktopSize = true → cp.supportsDesktopResize = true
  extendedDesktopSize : w.needExtendedDesktopSize = true →
    cp.supportsExtendedDesktopSize = true
  extendedDesktopSizeMsgs : w.extendedDesktopSizeMsgs ≠ [] →
    cp.supportsExtendedDesktopSize = true

theorem startUpdate_room (w : SMsgWriter) (nRects : ℕ) :
    (w.startUpdate nRects).Room w.need.card := by
  by_cases hmax : w.announced nRects = 0xFFFF
  · exact Or.inl (if_pos hmax)
  · refine Or.inr ?_
    have hannounced : w.announced nRects = nRects + w.need.card := by
      refine if_pos fun hn => hmax ?_
      rw [announced, if_neg (not_not.mpr hn), hn]
    show 0 + w.need.card ≤ if w.announced nRects = 0xFFFF then 0 else w.announced nRects
    rw [if_neg hmax]
    omega

/-- An update starts with the pending pseudo-rectangles and leaves none. -/
theorem writeFramebufferUpdateStart_ok {cp : ConnParams} {w : SMsgWriter}
    (hs : ∀ p ∈ w.need, p.supported cp = true) (nRects : ℕ) :
    ∃ outs, outs.length = w.need.card ∧ Unmarked outs ∧
      w.writeFramebufferUpdateStart cp nRects =
        .ok { (w.startUpdate nRects).wrote outs with need := ∅ } :=
  writePseudoRects_ok (w := w.startUpdate nRects) hs (startUpdate_room w nRects)

theorem writeFramebufferUpdateStart_refused {cp : ConnParams} {w : SMsgWriter}
    {p : PseudoRect} (hp : p.supported cp = false) (hneed : p ∈ w.need) (nRects : ℕ) :
    ∃ msg, w.writeFramebufferUpdateStart cp nRects = .error (.refused msg) :=
  writeNeeded_refused (w := w.startUpdate nRects) hp _ hneed p.mem_order
    (startUpdate_room w nRects)

theorem writeExtendedDesktopSizeRects_ok {cp : ConnParams} :
    ∀ (msgs : List ExtendedDesktopSizeMsg) {w : SMsgWriter},
      (msgs ≠ [] → cp.supportsExtendedDesktopSize = true) → w.Room msgs.length →
      ∃ outs, outs.length = msgs.length ∧
        msgs.foldlM (fun w msg => writeExtendedDesktopSizeRect cp msg w) w =
          .ok (w.wrote outs)
  | [], w, _, _ => ⟨[], rfl, by rw [wrote_nil]; rfl⟩
  | msg :: msgs, w, hs, hroom => by
    have hroom : w.Room (msgs.length + 1) := hroom
    have hsupported := hs (List.cons_ne_nil msg msgs)
    obtain ⟨out, hfirst⟩ :
        ∃ out, w.writeExtendedDesktopSizeRect cp msg = .ok (w.wrote [out]) :=
      ⟨_, writePseudoRect_ok hsupported (hroom.mono (by omega)) _ _ _⟩
    obtain ⟨outs, hlen, hrest⟩ := writeExtendedDesktopSizeRects_ok
      msgs (fun _ => hsupported) (hroom.wrote_cons out)
    refine ⟨out :: outs, by rw [List.length_cons, hlen, List.length_cons], ?_⟩
    rw [List.foldlM_cons, hfirst]
    refine Eq.trans hrest ?_
    rw [wrote_append, List.singleton_append]

theorem writeIf_ok {w : SMsgWriter} (write : SMsgWriter → Except WriterError SMsgWriter)
    (b : Bool) (h : b = true → ∃ out, write w = .ok (w.wrote [out])) :
    ∃ outs, outs.length = (if b then 1 else 0) ∧
      w.writeIf b write = .ok (w.wrote outs) := by
  cases b with
  | false => exact ⟨[], rfl, by rw [wrote_nil]; rfl⟩
  | true =>
    obtain ⟨out, hout⟩ := h rfl
    exact ⟨[out], rfl, hout⟩

theorem writeNoDataRects_ok {cp : ConnParams} {w : SMsgWriter} (hw : w.Writable cp)
    (hroom : w.Room w.noDataRects) :
    ∃ outs, outs.length = w.noDataRects ∧
      w.writeNoDataRects cp =
        .ok { w.wrote outs with
          needSetDesktopSize := false
          needExtendedDesktopSize := false
          extendedDesktopSizeMsgs := [] } := by
  -- the three kinds of rectangles share the room in the order they are written in
  have hsum : w.noDataRects = w.extendedDesktopSizeMsgs.length +
      ((if w.needExtendedDesktopSize then 1 else 0) +
        (if w.needSetDesktopSize then 1 else 0)) := by
    rw [noDataRects]
    omega
  rw [hsum] at hroom ⊢
  obtain ⟨outs₁, hlen₁, h₁⟩ := writeExtendedDesktopSizeRects_ok (w := w) _
    hw.extendedDesktopSizeMsgs (hroom.mono (Nat.le_add_right _ _))
  let w₁ := { w.wrote outs₁ with extendedDesktopSizeMsgs := [] }
  have hroom₁ : w₁.Room ((if w.needExtendedDesktopSize then 1 else 0) +
      (if w.needSetDesktopSize then 1 else 0)) :=
    Room.wrote (by rwa [hlen₁])
  obtain ⟨outs₂, hlen₂, h₂⟩ := writeIf_ok (w := w₁)
    (writeExtendedDesktopSizeRect cp ⟨0, 0, cp.width, cp.height, cp.screenLayout⟩)
    w.needExtendedDesktopSize
    fun hb => ⟨_, writePseudoRect_ok (hw.extendedDesktopSize hb)
      (hroom₁.mono (by rw [hb]; exact Nat.le_add_right _ _)) _ _ _⟩
  let w₂ := { w₁.wrote outs₂ with needExtendedDesktopSize := false }
  have hroom₂ : w₂.Room (if w.needSetDesktopSize then 1 else 0) :=
    Room.wrote (by rwa [hlen₂])
  obtain ⟨outs₃, hlen₃, h₃⟩ := writeIf_ok (w := w₂)
    (writeSetDesktopSizeRect cp) w.needSetDesktopSize
    fun hb => ⟨_, writePseudoRect_ok (hw.desktopSize hb)
      (hroom₂.mono (by rw [hb]; rfl)) _ _ _⟩
  refine ⟨outs₁ ++ (outs₂ ++ outs₃), by simp [hlen₁, hlen₂, hlen₃], ?_⟩
  refine (bind_ok h₁ _).trans ((bind_ok h₂ _).trans ((bind_ok h₃ _).trans ?_))
  simp [wrote, w₁, w₂, add_assoc]

/-- The header made no promise, or it is kept. -/
theorem writeFramebufferUpdateEnd_ok {w : SMsgWriter}
    (h : w.nRectsInHeader = 0 ∨ w.nRectsInUpdate = w.nRectsInHeader) (cp : ConnParams) :
    w.writeFramebufferUpdateEnd cp =
      .ok (if w.nRectsInHeader = 0 then w.writeLastRect cp else w) := by
  rw [writeFramebufferUpdateEnd, if_neg (by tauto)]
  exact (apply_ite Except.ok _ _ _).symm

/-- What is left to announce. -/
structure Idle (w : SMsgWriter) : Prop where
  need : w.need = ∅
  desktopSize : w.needSetDesktopSize = false
  extendedDesktopSize : w.needExtendedDesktopSize = false
  extendedDesktopSizeMsgs : w.extendedDesktopSizeMsgs = []

theorem Idle.writable {w : SMsgWriter} (h : w.Idle) (cp : ConnParams) : w.Writable cp where
  need := by simp [h.need]
  desktopSize := by simp [h.desktopSize]
  extendedDesktopSize := by simp [h.extendedDesktopSize]
  extendedDesktopSizeMsgs := fun hne => absurd h.extendedDesktopSizeMsgs hne

theorem Idle.needFakeUpdate {w : SMsgWriter} (h : w.Idle) : w.needFakeUpdate = false := by
  simp [SMsgWriter.needFakeUpdate, needNoDataUpdate, h.need, h.desktopSize,
    h.extendedDesktopSize, h.extendedDesktopSizeMsgs]

/-- An update without pixels writes everything that is pending. -/
theorem writeNoDataUpdate_ok {cp : ConnParams} {w : SMsgWriter} (hw : w.Writable cp) :
    ∃ w', w.writeNoDataUpdate cp = .ok w' ∧ w'.Idle := by
  obtain ⟨outs, hlen, -, hstart⟩ := writeFramebufferUpdateStart_ok hw.need w.noDataRects
  let w₁ := { (w.startUpdate w.noDataRects).wrote outs with need := ∅ }
  have hw₁ : w₁.Writable cp :=
    ⟨by simp [w₁], hw.desktopSize, hw.extendedDesktopSize, hw.extendedDesktopSizeMsgs⟩
  -- the header counts both kinds of rectangles unless it counts none
  have hheader : w₁.nRectsInHeader = 0 ∨
      w₁.nRectsInHeader = outs.length + w.noDataRects := by
    rw [hlen]
    show (if w.announced w.noDataRects = 0xFFFF then 0 else w.announced w.noDataRects) = 0 ∨
      (if w.announced w.noDataRects = 0xFFFF then 0 else w.announced w.noDataRects) = _
    unfold announced
    split_ifs <;> omega
  have hcount : w₁.nRectsInUpdate = outs.length := Nat.zero_add _
  obtain ⟨outs', hlen', hrects⟩ := writeNoDataRects_ok hw₁ (by
    rcases hheader with h | h
    · exact Or.inl h
    · refine Or.inr ?_
      rw [hcount, h]
      exact le_rfl)
  let w₂ := { w₁.wrote outs' with
    needSetDesktopSize := false
    needExtendedDesktopSize := false
    extendedDesktopSizeMsgs := [] }
  have hend := writeFramebufferUpdateEnd_ok (w := w₂) (hheader.imp id fun h => by
    show w₁.nRectsInUpdate + outs'.length = w₁.nRectsInHeader
    rw [hcount, h, hlen']
    rfl) cp
  refine ⟨_, (bind_ok hstart _).trans ((bind_ok hrects _).trans hend), ?_⟩
  split
  · exact ⟨rfl, rfl, rfl, rfl⟩
  · exact ⟨rfl, rfl, rfl, rfl⟩

/-! ## What succeeds only appends -/

/-- If the part succeeds, it has left what was in the stream before. -/
def Appends (write : SMsgWriter → Except WriterError SMsgWriter) : Prop :=
  ∀ w w', write w = .ok w' → ∃ outs, w'.os = w.os ++ outs

theorem appends_ok {f : SMsgWriter → SMsgWriter} (hf : ∀ w, ∃ outs, (f w).os = w.os ++ outs) :
    Appends fun w => .ok (f w) := by
  intro w w' h
  obtain rfl : f w = w' := Except.ok.inj h
  exact hf w

theorem Appends.bind {f g : SMsgWriter → Except WriterError SMsgWriter} (hf : Appends f)
    (hg : Appends g) : Appends fun w => f w >>= g := by
  intro w w'' h
  obtain ⟨w', hw', hw''⟩ := of_bind_ok h
  obtain ⟨outs, hos⟩ := hf w w' hw'
  obtain ⟨outs', hos'⟩ := hg w' w'' hw''
  exact ⟨outs ++ outs', by rw [hos', hos, List.append_assoc]⟩

theorem appends_foldlM {α : Type} {f : SMsgWriter → α → Except WriterError SMsgWriter}
    (hf : ∀ a, Appends (f · a)) : ∀ l : List α, Appends fun w => l.foldlM f w
  | [] => appends_ok fun _ => ⟨[], (List.append_nil _).symm⟩
  | a :: l => (hf a).bind (appends_foldlM hf l)

theorem appends_writeIf {f : SMsgWriter → Except WriterError SMsgWriter} (hf : Appends f) :
    ∀ b : Bool, Appends (writeIf b f)
  | true => hf
  | false => appends_ok fun _ => ⟨[], (List.append_nil _).symm⟩

theorem appends_writePseudoRect (supported : Bool) (refusal site : String)
    (out : WriterOut) : Appends (writePseudoRect · supported refusal site out) := by
  intro w w'' h
  cases supported with
  | false => cases h
  | true =>
    obtain ⟨w', hw', hw''⟩ := of_bind_ok (h : (w.countRect site >>= _) = .ok w'')
    have hos : w'.os = w.os := by
      unfold countRect at hw'
      split at hw'
      · cases hw'
      · obtain rfl := Except.ok.inj hw'
        rfl
    obtain rfl := Except.ok.inj hw''
    exact ⟨[out], congrArg (· ++ [out]) hos⟩

theorem appends_write (cp : ConnParams) (p : PseudoRect) :
    Appends fun w => p.write cp w := by
  cases p with
  | cursorPos =>
    intro w w' h
    by_cases hs : cp.supportsEncoding pseudoEncodingVMwareCursorPosition = true
    · exact appends_writePseudoRect _ _ _ _ w w' ((if_pos hs).symm.trans h)
    · cases (if_neg hs).symm.trans h
  | ledState =>
    intro w w' h
    by_cases hs : (!cp.supportsLEDState) = true
    · cases (if_pos hs).symm.trans h
    · exact appends_writePseudoRect _ _ _ _ w w' ((if_neg hs).symm.trans h)
  | _ => exact appends_writePseudoRect _ _ _ _

theorem appends_writeNeeded (cp : ConnParams) (p : PseudoRect) :
    Appends (writeNeeded cp · p) := by
  intro w w' h
  by_cases hp : p ∈ w.need
  · have herase : Appends fun w => .ok { w with need := w.need.erase p } :=
      appends_ok fun w => ⟨[], (List.append_nil w.os).symm⟩
    exact (appends_write cp p).bind herase w w' ((if_pos hp).symm.trans h)
  · obtain rfl := Except.ok.inj ((if_neg hp).symm.trans h)
    exact ⟨[], (List.append_nil _).symm⟩

theorem appends_writeNoDataRects (cp : ConnParams) : Appends (writeNoDataRects cp) := by
  have hsame (f : SMsgWriter → SMsgWriter) (hf : ∀ w, (f w).os = w.os) :
      Appends fun w => .ok (f w) :=
    appends_ok fun w => ⟨[], (hf w).trans (List.append_nil _).symm⟩
  intro w w' h
  obtain ⟨w₁, hw₁, h⟩ := of_bind_ok h
  obtain ⟨w₂, hw₂, h⟩ := of_bind_ok h
  obtain ⟨w₃, hw₃, h⟩ := of_bind_ok h
  obtain ⟨outs₁, hos₁⟩ := appends_foldlM
    (fun msg => appends_writePseudoRect _ _ _ _) w.extendedDesktopSizeMsgs w w₁ hw₁
  obtain ⟨outs₂, hos₂⟩ := appends_writeIf (appends_writePseudoRect _ _ _ _) _ _ _ hw₂
  obtain ⟨outs₃, hos₃⟩ := appends_writeIf (appends_writePseudoRect _ _ _ _) _ _ _ hw₃
  obtain rfl := Except.ok.inj h
  refine ⟨outs₁ ++ (outs₂ ++ outs₃), ?_⟩
  show w₃.os = _
  rw [hos₃, hos₂, hos₁, List.append_assoc, List.append_assoc]

/-- An update without pixels is a FramebufferUpdate message. -/
theorem writeNoDataUpdate_os {cp : ConnParams} {w w' : SMsgWriter}
    (h : w.writeNoDataUpdate cp = .ok w') :
    ∃ n outs, w'.os = w.os ++ .framebufferUpdate n :: outs := by
  obtain ⟨w₁, hstart, h⟩ := of_bind_ok h
  obtain ⟨w₂, hrects, hend⟩ := of_bind_ok h
  obtain ⟨outs₁, hos₁⟩ := appends_foldlM (appends_writeNeeded cp) PseudoRect.order
    (w.startUpdate w.noDataRects) w₁ hstart
  obtain ⟨outs₂, hos₂⟩ := appends_writeNoDataRects cp w₁ w₂ hrects
  obtain ⟨outs₃, hos₃⟩ : ∃ outs, w'.os = w₂.os ++ outs := by
    unfold writeFramebufferUpdateEnd at hend
    split_ifs at hend
    · obtain rfl := Except.ok.inj hend
      exact ⟨_, rfl⟩
    · obtain rfl := Except.ok.inj hend
      exact ⟨[], (List.append_nil _).symm⟩
  refine ⟨w.announced w.noDataRects % 65536, outs₁ ++ (outs₂ ++ outs₃), ?_⟩
  rw [hos₃, hos₂, hos₁]
  simp [startUpdate]

end SMsgWriter

end KasmVNC.Rfb
