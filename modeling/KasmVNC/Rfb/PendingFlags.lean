import KasmVNC.Rfb.SMsgWriter

/-!
# Pending pseudo-rectangles and SetEncodings

A connection collects marks for pseudo-rectangles from server events and writes
them with the next update. In between, SetEncodings may replace the client's
capabilities. A mark stays writable as long as no SetEncodings takes away the
encoding it was made for; the client that announced cursor positions must go on
announcing them, and the LED state must not become unknown while it is pending.
-/

namespace KasmVNC.Rfb

open KasmVNC.Lib

/-- `VNCSConnectionST` in the state `RFBSTATE_NORMAL`, as far as
pseudo-rectangles are concerned. -/
structure Conn where
  cp : ConnParams
  writer : SMsgWriter
  closed : Bool
deriving DecidableEq

/-- What may happen to a connection between updates. `rendered` is the answer of
`needRenderedCursor()`. -/
inductive MarkEvent
  | setEncodings (watermarkImage : Bool) (encodings : List ℤ) (rendered : Bool)
      (cursor : Cursor)
  | setCursor (rendered : Bool) (cursor : Cursor)
  | setCursorPos (pos : Point)
  | setLEDState (state : BitVec 32)
  | setDesktopName (name : String)
  | pixelBufferChange (width height : ℕ) (layout : ScreenSet)
  | screenLayoutChange (reason : ℕ) (layout : ScreenSet)
  /-- The answer to a client's SetDesktopSize. -/
  | setDesktopSize (msg : ExtendedDesktopSizeMsg)
  | framebufferUpdateRequest (r : Rect) (incremental : Bool)

/-- Events and updates, in any order. -/
inductive PendingEvent
  | mark (e : MarkEvent)
  | writeNoDataUpdate
  /-- The start of an update with pixels. -/
  | writeFramebufferUpdateStart (nRects : ℕ)

namespace Conn

/-- After the initialisation: nothing is announced yet, nothing is pending. -/
def start (width height : ℕ) (layout : ScreenSet) (name : String) (ledState : BitVec 32) :
    Conn where
  cp :=
    { width := width, height := height, screenLayout := layout, name := name,
      ledState := ledState }
  writer := {}
  closed := false

/-- The client gets its cursor in the best form it supports. -/
def writeCursor (cp : ConnParams) (w : SMsgWriter) : SMsgWriter :=
  if (w.writeSetVMwareCursor cp).2 then (w.writeSetVMwareCursor cp).1
  else if (w.writeSetCursorWithAlpha cp).2 then (w.writeSetCursorWithAlpha cp).1
  else if (w.writeSetCursor cp).2 then (w.writeSetCursor cp).1
  else (w.writeSetXCursor cp).1

def setCursor (c : Conn) (rendered : Bool) (cursor : Cursor) : Conn :=
  let cp := { c.cp with cursor := if rendered then emptyCursor else cursor }
  { c with cp := cp, writer := writeCursor cp c.writer }

def setCursorPos (c : Conn) (pos : Point) : Except WriterError Conn :=
  if c.cp.supportsCursorPosition then
    let cp := { c.cp with cursorPos := pos }
    c.writer.writeCursorPos cp >>= fun w => .ok { c with cp := cp, writer := w }
  else .ok c

def setLEDState (c : Conn) (state : BitVec 32) : Conn :=
  let cp := { c.cp with ledState := state }
  { c with cp := cp, writer := (c.writer.writeLEDState cp).1 }

def setDesktopName (c : Conn) (name : String) : Conn :=
  let cp := { c.cp with name := name }
  { c with cp := cp, writer := (c.writer.writeSetDesktopName cp).1 }

/-- The first fence tells the client that fences may be used. -/
def supportsFence (c : Conn) : Except WriterError Conn :=
  c.writer.writeFence c.cp fenceFlagRequest [0] >>= fun w => .ok { c with writer := w }

/-- Continuous updates are refused without fences. -/
def supportsContinuousUpdates (c : Conn) : Except WriterError Conn :=
  if !c.cp.supportsFence then .ok c
  else c.writer.writeEndOfContinuousUpdates c.cp >>= fun w => .ok { c with writer := w }

def supportsLEDState (c : Conn) : Conn :=
  { c with writer := (c.writer.writeLEDState c.cp).1 }

def supportsQEMUKeyEvent (c : Conn) : Conn :=
  { c with writer := (c.writer.writeQEMUKeyEvent c.cp).1 }

/-- A callback of `SMsgHandler::setEncodings`: made when a capability is there now
and was not in `old`. -/
def onFirst (get : ConnParams → Bool) (old : ConnParams) (act : Conn → Except WriterError Conn)
    (c : Conn) : Except WriterError Conn :=
  if get c.cp && !get old then act c else .ok c

def announce (old : ConnParams) (c : Conn) : Except WriterError Conn := do
  let c ← c.onFirst (·.supportsFence) old supportsFence
  let c ← c.onFirst (·.supportsContinuousUpdates) old supportsContinuousUpdates
  let c ← c.onFirst (·.supportsLEDState) old fun c => .ok c.supportsLEDState
  c.onFirst (·.supportsQEMUKeyEvent) old fun c => .ok c.supportsQEMUKeyEvent

/-- `SMsgHandler::setEncodings`; `supportsLocalCursor` comes down to a call of
`setCursor`. -/
def setEncodings (c : Conn) (watermarkImage : Bool) (encodings : List ℤ) (rendered : Bool)
    (cursor : Cursor) : Except WriterError Conn :=
  let cp := c.cp.setEncodings watermarkImage encodings
  announce c.cp ({ c with cp := cp }.setCursor rendered cursor)

/-- A replaced framebuffer of another size. The layout goes to clients that know
about screens, the mere size to the others; a client with neither is dropped. -/
def pixelBufferChange (c : Conn) (width height : ℕ) (layout : ScreenSet) : Conn :=
  if c.cp.width ≠ 0 ∧ c.cp.height ≠ 0 ∧ (width ≠ c.cp.width ∨ height ≠ c.cp.height) then
    let cp := { c.cp with width := width, height := height, screenLayout := layout }
    let c := { c with cp := cp }
    if (c.writer.writeExtendedDesktopSize cp).2 then
      { c with writer := (c.writer.writeExtendedDesktopSize cp).1 }
    else if (c.writer.writeSetDesktopSize cp).2 then
      { c with writer := (c.writer.writeSetDesktopSize cp).1 }
    else { c with closed := true }
  else c

def screenLayoutChange (c : Conn) (reason : ℕ) (layout : ScreenSet) : Conn :=
  let cp := { c.cp with screenLayout := layout }
  let msg := ⟨reason, 0, cp.width, cp.height, layout⟩
  { c with cp := cp, writer := (c.writer.queueExtendedDesktopSize cp msg).1 }

def setDesktopSize (c : Conn) (msg : ExtendedDesktopSizeMsg) : Conn :=
  { c with writer := (c.writer.queueExtendedDesktopSize c.cp msg).1 }

def framebufferUpdateRequest (c : Conn) (incremental : Bool) : Conn :=
  if incremental then c
  else { c with writer := (c.writer.writeExtendedDesktopSize c.cp).1 }

def writeNoDataUpdate (c : Conn) : Except WriterError Conn :=
  if !c.writer.needNoDataUpdate then .ok c
  else c.writer.writeNoDataUpdate c.cp >>= fun w => .ok { c with writer := w }

def writeFramebufferUpdateStart (c : Conn) (nRects : ℕ) : Except WriterError Conn :=
  c.writer.writeFramebufferUpdateStart c.cp nRects >>= fun w => .ok { c with writer := w }

def handle (c : Conn) : MarkEvent → Except WriterError Conn
  | .setEncodings watermarkImage encodings rendered cursor =>
    c.setEncodings watermarkImage encodings rendered cursor
  | .setCursor rendered cursor => .ok (c.setCursor rendered cursor)
  | .setCursorPos pos => c.setCursorPos pos
  | .setLEDState state => .ok (c.setLEDState state)
  | .setDesktopName name => .ok (c.setDesktopName name)
  | .pixelBufferChange width height layout => .ok (c.pixelBufferChange width height layout)
  | .screenLayoutChange reason layout => .ok (c.screenLayoutChange reason layout)
  | .setDesktopSize msg => .ok (c.setDesktopSize msg)
  | .framebufferUpdateRequest _ incremental => .ok (c.framebufferUpdateRequest incremental)

/-- One event; a closed connection sees no more of them. -/
def step (c : Conn) (e : PendingEvent) : Except WriterError Conn :=
  if c.closed then .ok c
  else match e with
  | .mark e => c.handle e
  | .writeNoDataUpdate => c.writeNoDataUpdate
  | .writeFramebufferUpdateStart nRects => c.writeFramebufferUpdateStart nRects

end Conn

/-! ## The condition -/

/-- SetEncodings with this list leaves the pending rectangle writable. The marks
for the name and the LED state need no encoding in the list: their booleans are
never reset. -/
def PseudoRect.keptBy (encodings : List ℤ) : PseudoRect → Bool
  | .setCursor => pseudoEncodingCursor ∈ encodings
  | .setXCursor => pseudoEncodingXCursor ∈ encodings
  | .setCursorWithAlpha => pseudoEncodingCursorWithAlpha ∈ encodings
  | .setVMWareCursor => pseudoEncodingVMwareCursor ∈ encodings
  | .cursorPos => pseudoEncodingVMwareCursorPosition ∈ encodings
  | .setDesktopName => true
  | .ledState => true
  | .qemuKeyEvent => pseudoEncodingQEMUKeyEvent ∈ encodings

namespace Conn

/-- The event does not take away what a pending mark needs. -/
def KeepsMarks (c : Conn) : MarkEvent → Prop
  | .setEncodings _ encodings _ _ =>
    (∀ p ∈ c.writer.need, p.keptBy encodings = true) ∧
    (c.writer.needSetDesktopSize = true → pseudoEncodingDesktopSize ∈ encodings) ∧
    (c.writer.needExtendedDesktopSize = true ∨ c.writer.extendedDesktopSizeMsgs ≠ [] →
      pseudoEncodingExtendedDesktopSize ∈ encodings)
  | .setCursorPos _ => c.cp.supportsCursorPosition = true →
      c.cp.supportsEncoding pseudoEncodingVMwareCursorPosition = true
  | .setLEDState state => state = ledUnknown → PseudoRect.ledState ∉ c.writer.need
  | _ => True

instance (c : Conn) : ∀ e, Decidable (c.KeepsMarks e)
  | .setEncodings .. => inferInstanceAs (Decidable (_ ∧ _ ∧ _))
  | .setCursorPos _ => inferInstanceAs (Decidable (_ → _))
  | .setLEDState _ => inferInstanceAs (Decidable (_ → _))
  | .setCursor .. | .setDesktopName _ | .pixelBufferChange .. | .screenLayoutChange ..
  | .setDesktopSize _ | .framebufferUpdateRequest .. => inferInstanceAs (Decidable True)

def KeepsPending (c : Conn) : PendingEvent → Prop
  | .mark e => c.KeepsMarks e
  | .writeNoDataUpdate | .writeFramebufferUpdateStart _ => True

instance (c : Conn) : ∀ e, Decidable (c.KeepsPending e)
  | .mark e => inferInstanceAs (Decidable (c.KeepsMarks e))
  | .writeNoDataUpdate | .writeFramebufferUpdateStart _ => inferInstanceAs (Decidable True)

end Conn

/-! ## What each event preserves -/

namespace SMsgWriter

variable {cp cp' : ConnParams} {w : SMsgWriter}

theorem Writable.mark (h : w.Writable cp) {supported : Bool} {p : PseudoRect}
    (hp : supported = true → p.supported cp = true) : (w.mark supported p).1.Writable cp := by
  unfold SMsgWriter.mark
  split
  · rename_i hs
    refine ⟨fun q hq => ?_, h.desktopSize, h.extendedDesktopSize, h.extendedDesktopSizeMsgs⟩
    rcases Finset.mem_insert.mp hq with rfl | hq
    · exact hp hs
    · exact h.need q hq
  · exact h

theorem Writable.writeExtendedDesktopSize (h : w.Writable cp) :
    (w.writeExtendedDesktopSize cp).1.Writable cp := by
  unfold SMsgWriter.writeExtendedDesktopSize
  split
  · rename_i hs
    exact ⟨h.need, h.desktopSize, fun _ => hs, h.extendedDesktopSizeMsgs⟩
  · exact h

theorem Writable.queueExtendedDesktopSize (h : w.Writable cp) (msg : ExtendedDesktopSizeMsg) :
    (w.queueExtendedDesktopSize cp msg).1.Writable cp := by
  unfold SMsgWriter.queueExtendedDesktopSize
  split
  · rename_i hs
    exact ⟨h.need, h.desktopSize, h.extendedDesktopSize, fun _ => hs⟩
  · exact h

theorem Writable.writeSetDesktopSize (h : w.Writable cp) :
    (w.writeSetDesktopSize cp).1.Writable cp := by
  unfold SMsgWriter.writeSetDesktopSize
  split
  · rename_i hs
    exact ⟨h.need, fun _ => hs, h.extendedDesktopSize, h.extendedDesktopSizeMsgs⟩
  · exact h

/-- Whatever form the cursor is sent in, the client supports it. -/
theorem Writable.writeCursor (h : w.Writable cp) : (Conn.writeCursor cp w).Writable cp := by
  unfold Conn.writeCursor
  split_ifs
  · exact h.mark id
  · exact h.mark id
  · exact h.mark id
  · exact h.mark id

/-- Writing into the stream does not touch the marks. -/
theorem Writable.emit (h : w.Writable cp) (out : List WriterOut) :
    ({ w with os := out } : SMsgWriter).Writable cp :=
  ⟨h.need, h.desktopSize, h.extendedDesktopSize, h.extendedDesktopSizeMsgs⟩

end SMsgWriter

namespace Conn

/-- Everything that is pending can be written now. -/
abbrev Ready (c : Conn) : Prop := c.writer.Writable c.cp

theorem Ready.setCursor {c : Conn} (h : c.Ready) (rendered : Bool) (cursor : Cursor) :
    (c.setCursor rendered cursor).Ready :=
  SMsgWriter.Writable.writeCursor
    ⟨h.need, h.desktopSize, h.extendedDesktopSize, h.extendedDesktopSizeMsgs⟩

theorem Ready.setDesktopName {c : Conn} (h : c.Ready) (name : String) :
    (c.setDesktopName name).Ready := by
  have hw : c.writer.Writable { c.cp with name := name } :=
    ⟨h.need, h.desktopSize, h.extendedDesktopSize, h.extendedDesktopSizeMsgs⟩
  exact hw.mark id

/-- The pending LED rectangle is the one that depends on the state itself. -/
theorem Ready.setLEDState {c : Conn} (h : c.Ready) {state : BitVec 32}
    (hstate : state = ledUnknown → PseudoRect.ledState ∉ c.writer.need) :
    (c.setLEDState state).Ready := by
  have hw : c.writer.Writable { c.cp with ledState := state } := by
    refine ⟨fun p hp => ?_, h.desktopSize, h.extendedDesktopSize, h.extendedDesktopSizeMsgs⟩
    have hold := h.need p hp
    cases p with
    | ledState =>
      have hknown : state ≠ ledUnknown := fun heq => hstate heq hp
      have hled : c.cp.supportsLEDState = true := by
        simp only [PseudoRect.supported, Bool.and_eq_true] at hold
        exact hold.1
      simpa [PseudoRect.supported, hled] using hknown
    | _ => exact hold
  exact hw.mark id

theorem setCursorPos_ready {c : Conn} (h : c.Ready) (pos : Point)
    (hpos : c.cp.supportsCursorPosition = true →
      c.cp.supportsEncoding pseudoEncodingVMwareCursorPosition = true) :
    ∃ c', c.setCursorPos pos = .ok c' ∧ c'.Ready := by
  by_cases hs : c.cp.supportsCursorPosition = true
  · have hw : c.writer.Writable { c.cp with cursorPos := pos } :=
      ⟨h.need, h.desktopSize, h.extendedDesktopSize, h.extendedDesktopSizeMsgs⟩
    refine ⟨_, (if_pos hs).trans (bind_ok (if_pos (hpos hs)) _), ?_⟩
    refine ⟨fun p hp => ?_, hw.desktopSize, hw.extendedDesktopSize,
      hw.extendedDesktopSizeMsgs⟩
    rcases Finset.mem_insert.mp hp with rfl | hp
    · exact hpos hs
    · exact hw.need p hp
  · exact ⟨c, if_neg hs, h⟩

theorem Ready.pixelBufferChange {c : Conn} (h : c.Ready) (width height : ℕ)
    (layout : ScreenSet) : (c.pixelBufferChange width height layout).Ready := by
  have hw : c.writer.Writable
      { c.cp with width := width, height := height, screenLayout := layout } :=
    ⟨h.need, h.desktopSize, h.extendedDesktopSize, h.extendedDesktopSizeMsgs⟩
  unfold Conn.pixelBufferChange
  split
  · dsimp only
    split_ifs
    · exact hw.writeExtendedDesktopSize
    · exact hw.writeSetDesktopSize
    · exact hw
  · exact h

theorem Ready.screenLayoutChange {c : Conn} (h : c.Ready) (reason : ℕ)
    (layout : ScreenSet) : (c.screenLayoutChange reason layout).Ready := by
  have hw : c.writer.Writable { c.cp with screenLayout := layout } :=
    ⟨h.need, h.desktopSize, h.extendedDesktopSize, h.extendedDesktopSizeMsgs⟩
  exact hw.queueExtendedDesktopSize _

theorem Ready.framebufferUpdateRequest {c : Conn} (h : c.Ready) (incremental : Bool) :
    (c.framebufferUpdateRequest incremental).Ready := by
  cases incremental with
  | true => exact h
  | false => exact h.writeExtendedDesktopSize

/-! ## SetEncodings -/

/-- SetEncodings that names the encodings of all marks keeps them writable. -/
theorem Ready.cpSetEncodings {c : Conn} (h : c.Ready) {watermarkImage : Bool}
    {encodings : List ℤ} {rendered : Bool} {cursor : Cursor}
    (hkeep : c.KeepsMarks (.setEncodings watermarkImage encodings rendered cursor)) :
    c.writer.Writable (c.cp.setEncodings watermarkImage encodings) := by
  obtain ⟨hneed, hsize, hextended⟩ := hkeep
  refine ⟨fun p hp => ?_, ?_, ?_, ?_⟩
  · have hold := h.need p hp
    have hlist := hneed p hp
    cases p with
    | cursorPos =>
      exact (ConnParams.setEncodings_supportsEncoding _ _ _ (by decide)).trans hlist
    | setDesktopName =>
      have hrename : c.cp.supportsDesktopRename = true := hold
      simp [PseudoRect.supported, hrename]
    | ledState =>
      simp only [PseudoRect.supported, Bool.and_eq_true] at hold
      simpa [PseudoRect.supported, hold.1] using hold.2
    | _ => simpa [PseudoRect.supported, PseudoRect.keptBy] using hlist
  · intro hs
    simpa using hsize hs
  · intro hs
    simpa using hextended (Or.inl hs)
  · intro hs
    simpa using hextended (Or.inr hs)

theorem onFirst_ready (get : ConnParams → Bool) {act : Conn → Except WriterError Conn}
    (hact : ∀ c : Conn, c.Ready → get c.cp = true → ∃ c', act c = .ok c' ∧ c'.Ready)
    (old : ConnParams) {c : Conn} (h : c.Ready) :
    ∃ c', c.onFirst get old act = .ok c' ∧ c'.Ready := by
  by_cases hfirst : (get c.cp && !get old) = true
  · obtain ⟨c', hc', hready⟩ := hact c h (Bool.and_eq_true_iff.mp hfirst).1
    exact ⟨c', (if_pos hfirst).trans hc', hready⟩
  · exact ⟨c, if_neg hfirst, h⟩

theorem supportsFence_ready {c : Conn} (h : c.Ready) (hs : c.cp.supportsFence = true) :
    ∃ c', c.supportsFence = .ok c' ∧ c'.Ready := by
  have hwrite : c.writer.writeFence c.cp fenceFlagRequest [0] =
      .ok { c.writer with os := c.writer.os ++ [.fence fenceFlagRequest [0]] } := by
    rw [SMsgWriter.writeFence, if_neg (by simp [hs]), if_neg (by decide), if_neg (by decide)]
  exact ⟨_, bind_ok hwrite _, SMsgWriter.Writable.emit h _⟩

theorem supportsContinuousUpdates_ready {c : Conn} (h : c.Ready)
    (hs : c.cp.supportsContinuousUpdates = true) :
    ∃ c', c.supportsContinuousUpdates = .ok c' ∧ c'.Ready := by
  by_cases hfence : (!c.cp.supportsFence) = true
  · exact ⟨c, if_pos hfence, h⟩
  · have hwrite : c.writer.writeEndOfContinuousUpdates c.cp =
        .ok { c.writer with os := c.writer.os ++ [.endOfContinuousUpdates] } :=
      if_neg (by simp [hs])
    exact ⟨_, (if_neg hfence).trans (bind_ok hwrite _), SMsgWriter.Writable.emit h _⟩

theorem announce_ready (old : ConnParams) {c : Conn} (h : c.Ready) :
    ∃ c', c.announce old = .ok c' ∧ c'.Ready := by
  obtain ⟨c₁, h₁, hc₁⟩ := onFirst_ready _ (fun _ => supportsFence_ready) old h
  obtain ⟨c₂, h₂, hc₂⟩ := onFirst_ready _ (fun _ => supportsContinuousUpdates_ready) old hc₁
  obtain ⟨c₃, h₃, hc₃⟩ := onFirst_ready (·.supportsLEDState)
    (fun c hc _ => ⟨c.supportsLEDState, rfl, SMsgWriter.Writable.mark hc id⟩) old hc₂
  obtain ⟨c₄, h₄, hc₄⟩ := onFirst_ready (·.supportsQEMUKeyEvent)
    (fun c hc hs => ⟨c.supportsQEMUKeyEvent, rfl, SMsgWriter.Writable.mark hc id⟩) old hc₃
  exact ⟨c₄, (bind_ok h₁ _).trans ((bind_ok h₂ _).trans ((bind_ok h₃ _).trans h₄)), hc₄⟩

theorem setEncodings_ready {c : Conn} (h : c.Ready) {watermarkImage : Bool}
    {encodings : List ℤ} {rendered : Bool} {cursor : Cursor}
    (hkeep : c.KeepsMarks (.setEncodings watermarkImage encodings rendered cursor)) :
    ∃ c', c.setEncodings watermarkImage encodings rendered cursor = .ok c' ∧ c'.Ready :=
  announce_ready c.cp (Ready.setCursor (c := { c with cp := _ }) (h.cpSetEncodings hkeep)
    rendered cursor)

/-! ## Runs -/

theorem handle_ready {c : Conn} (h : c.Ready) {e : MarkEvent} (he : c.KeepsMarks e) :
    ∃ c', c.handle e = .ok c' ∧ c'.Ready := by
  cases e with
  | setEncodings => exact setEncodings_ready h he
  | setCursor rendered cursor => exact ⟨_, rfl, h.setCursor rendered cursor⟩
  | setCursorPos pos => exact setCursorPos_ready h pos he
  | setLEDState state => exact ⟨_, rfl, h.setLEDState he⟩
  | setDesktopName name => exact ⟨_, rfl, h.setDesktopName name⟩
  | pixelBufferChange width height layout =>
    exact ⟨_, rfl, h.pixelBufferChange width height layout⟩
  | screenLayoutChange reason layout => exact ⟨_, rfl, h.screenLayoutChange reason layout⟩
  | setDesktopSize msg => exact ⟨_, rfl, SMsgWriter.Writable.queueExtendedDesktopSize h msg⟩
  | framebufferUpdateRequest _ incremental =>
    exact ⟨_, rfl, h.framebufferUpdateRequest incremental⟩

theorem writeNoDataUpdate_ready {c : Conn} (h : c.Ready) :
    ∃ c', c.writeNoDataUpdate = .ok c' ∧ c'.Ready := by
  by_cases hneed : (!c.writer.needNoDataUpdate) = true
  · exact ⟨c, if_pos hneed, h⟩
  · obtain ⟨w, hw, hidle⟩ := SMsgWriter.writeNoDataUpdate_ok h
    exact ⟨_, (if_neg hneed).trans (bind_ok hw _), hidle.writable _⟩

theorem writeFramebufferUpdateStart_ready {c : Conn} (h : c.Ready) (nRects : ℕ) :
    ∃ c', c.writeFramebufferUpdateStart nRects = .ok c' ∧ c'.Ready := by
  obtain ⟨outs, -, -, hw⟩ := SMsgWriter.writeFramebufferUpdateStart_ok h.need nRects
  exact ⟨_, bind_ok hw _, ⟨by simp, h.desktopSize, h.extendedDesktopSize,
    h.extendedDesktopSizeMsgs⟩⟩

/-- No event throws, and what is pending afterwards can be written. -/
theorem step_ready {c : Conn} (h : c.Ready) {e : PendingEvent} (he : c.KeepsPending e) :
    ∃ c', c.step e = .ok c' ∧ c'.Ready := by
  by_cases hclosed : c.closed = true
  · exact ⟨c, if_pos hclosed, h⟩
  unfold step
  rw [if_neg hclosed]
  cases e with
  | mark e => exact handle_ready h he
  | writeNoDataUpdate => exact writeNoDataUpdate_ready h
  | writeFramebufferUpdateStart nRects => exact writeFramebufferUpdateStart_ready h nRects

end Conn

/-- **Pending pseudo-rectangles.** As long as no event takes away what a pending
mark needs, no event throws and every mark refers to an encoding the client
supports. -/
theorem pending_rects_writable (width height : ℕ) (layout : ScreenSet) (name : String)
    (ledState : BitVec 32) {es : List PendingEvent}
    (h : TryGuarded Conn.step Conn.KeepsPending
      (Conn.start width height layout name ledState) es) :
    ∃ c, tryRun Conn.step (Conn.start width height layout name ledState) es = .ok c ∧
      c.writer.Writable c.cp :=
  tryRun_invariant (I := Conn.Ready) (fun _ _ hc he => Conn.step_ready hc he)
    (SMsgWriter.Idle.writable ⟨rfl, rfl, rfl, rfl⟩ _) h

/-- Cursor shape and position, repeated SetEncodings, then an update. -/
theorem pending_rects_writable_cursor :
    let es : List PendingEvent :=
      [.mark (.setEncodings false [pseudoEncodingCursor, pseudoEncodingVMwareCursorPosition]
          false ⟨1, 1, (0, 0)⟩),
        .mark (.setCursorPos (3, 4)),
        .mark (.setEncodings false [pseudoEncodingVMwareCursorPosition, pseudoEncodingCursor]
          false ⟨1, 1, (0, 0)⟩),
        .writeFramebufferUpdateStart 1]
    ∃ c, tryRun Conn.step (Conn.start 2 2 [] "x" 0) es = .ok c ∧ c.writer.Writable c.cp :=
  pending_rects_writable 2 2 [] "x" 0
    (tryGuarded_cons (by decide) rfl (tryGuarded_cons (by decide) rfl
      (tryGuarded_cons (by decide) rfl (tryGuarded_cons (by decide) rfl trivial))))

/-- A SetEncodings without the cursor encoding does not take back the mark the one
before it has set, and the next update throws. -/
theorem dropped_cursor_encoding_throws :
    ¬ ∀ es : List PendingEvent,
      ∃ c, tryRun Conn.step (Conn.start 2 2 [] "x" 0) es = .ok c ∧
        c.writer.Writable c.cp := by
  intro h
  obtain ⟨c, hc, -⟩ := h
    [.mark (.setEncodings false [pseudoEncodingCursor] false ⟨1, 1, (0, 0)⟩),
      .mark (.setEncodings false [] false ⟨1, 1, (0, 0)⟩),
      .writeFramebufferUpdateStart 1]
  have hthrows : tryRun Conn.step (Conn.start 2 2 [] "x" 0)
      [.mark (.setEncodings false [pseudoEncodingCursor] false ⟨1, 1, (0, 0)⟩),
        .mark (.setEncodings false [] false ⟨1, 1, (0, 0)⟩),
        .writeFramebufferUpdateStart 1] =
      .error (.refused "Client does not support local cursors") := by rfl
  rw [hthrows] at hc
  cases hc

end KasmVNC.Rfb
