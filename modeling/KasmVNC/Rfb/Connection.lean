import KasmVNC.Rfb.UpdateRequests

/-!
# A connection and its updates

The parts of `VNCSConnectionST` put together: the pseudo-rectangles that are
pending, what the client has not been told yet, and the encode manager.
`writeFramebufferUpdate` calls `writeNoDataUpdate` and `writeDataUpdate`, each of
which forgets the request once it has written an update. The exception is a
refresh that the encode manager declines while there is video.
-/

namespace KasmVNC.Rfb

open KasmVNC.Lib

/-- What a call of `writeFramebufferUpdate` finds. What the connection knows
itself is replaced by its own values. -/
structure UpdateEnv where
  /-- Neither a sync fence nor messages that are being processed nor congestion
  nor missing view rights hold the update back. -/
  ready : Bool
  update : UpdateContext
  encode : EncodeContext
  /-- `getLosslessRefresh` -/
  refresh : Region → Region

structure Connection where
  conn : Conn
  updates : ClientUpdates
  encodeManager : EncodeManager

/-- What may happen to a connection. Most events are followed by an attempt to
write an update, which is an event of its own. -/
inductive ConnectionEvent
  | mark (e : MarkEvent)
  | addChanged (region : Region)
  | addCopied (dest : Region) (delta : Point)
  | addCopypassed (rects : List CopyPassRect)
  /-- The switch between the two kinds of cursors is a `setCursor`. -/
  | renderedCursorChange (rendered : Bool)
  /-- `enableContinuousUpdates` with `enable` false. -/
  | endContinuousUpdates (r : Rect)
  /-- The video timer of the encode manager. -/
  | videoTimeout (videoTime frameRate : ℕ) (pbRect : Rect)
  | writeFramebufferUpdate (env : UpdateEnv)

namespace Conn

/-- What a mark event does on the framebuffer side. -/
def track (c : Conn) (u : ClientUpdates) : MarkEvent → ClientUpdates
  | .setEncodings _ _ rendered _ =>
    { u with
      removeRenderedCursor :=
        u.removeRenderedCursor || (u.damagedCursorRegion ≠ ∅ && !rendered) }
  | .pixelBufferChange width height _ =>
    let pb := Region.ofRect ⟨(0, 0), (width, height)⟩
    { u with
      updates := u.updates.clear.addChanged pb
      damagedCursorRegion :=
        if c.cp.width ≠ 0 ∧ c.cp.height ≠ 0 ∧ (width ≠ c.cp.width ∨ height ≠ c.cp.height)
        then u.damagedCursorRegion ∩ pb else u.damagedCursorRegion }
  | .framebufferUpdateRequest r incremental =>
    let reqRgn := Region.ofRect (r.intersect ⟨(0, 0), (c.cp.width, c.cp.height)⟩)
    { u with
      requested :=
        if !incremental || !u.continuousUpdates then u.requested ∪ reqRgn else u.requested
      updates := if incremental then u.updates else u.updates.addChanged reqRgn }
  | .setCursor .. | .setCursorPos _ | .setLEDState _ | .setDesktopName _
  | .screenLayoutChange .. | .setDesktopSize _ => u

/-- `enableContinuousUpdates` is refused without fences. -/
def endContinuousUpdates (c : Conn) : Except WriterError Conn :=
  if !c.cp.supportsFence || !c.cp.supportsContinuousUpdates then
    .error (.refused "Client tried to enable continuous updates when not allowed")
  else c.writer.writeEndOfContinuousUpdates c.cp >>= fun w => .ok { c with writer := w }

end Conn

/-- `EncodeManager::handleTimeout` -/
def EncodeManager.videoTimeout (videoTime frameRate : ℕ) (m : EncodeManager) : EncodeManager :=
  { m with
    videoDetected := false
    areaPercentages := fun i =>
      if i < max videoTime 1 * frameRate then 0 else m.areaPercentages i }

namespace Connection

variable (s : Connection) (env : UpdateEnv)

def updateContext : UpdateContext :=
  { env.update with
    useCopyRect := s.conn.cp.useCopyRect
    supportsUdp := s.conn.cp.supportsUdp
    screen := ⟨(0, 0), (s.conn.cp.width, s.conn.cp.height)⟩
    needFakeUpdate := s.conn.writer.needFakeUpdate }

def encodeContext : EncodeContext :=
  { env.encode with
    cp := s.conn.cp
    pbRect := env.update.pbRect
    renderedCursor := if env.update.needRenderedCursor then some env.update.cursorRect else none }

/-- Updates that cannot contain changes of the framebuffer. No data update is sent
until the next request. -/
def writeNoDataUpdate : Except WriterError Connection :=
  if !s.conn.writer.needNoDataUpdate then .ok s
  else s.conn.writeNoDataUpdate >>= fun conn =>
    .ok { s with conn := conn, updates := { s.updates with requested := ∅ } }

/-- The encode manager has returned. -/
def wrote (updates : ClientUpdates) (r : EncodeManager × SMsgWriter) : Connection :=
  ⟨{ s.conn with writer := r.2 }, updates, r.1⟩

def writeDataUpdate : Except WriterError Connection :=
  let u := s.updates.writeDataUpdate (s.updateContext env)
  match u.2 with
  | .nothing => .ok { s with updates := u.1 }
  | .update ui =>
    s.encodeManager.writeUpdate (s.encodeContext env) ui s.conn.writer >>= fun r =>
      .ok (s.wrote u.1 r)
  | .losslessRefresh req =>
    s.encodeManager.writeLosslessRefresh (s.encodeContext env) (env.refresh req)
      s.conn.writer >>= fun r => .ok (s.wrote u.1 r)

/-- The update is attempted. -/
def Updates : Prop :=
  env.ready = true ∧ (s.updates.requested ≠ ∅ ∨ s.updates.continuousUpdates = true)

instance : Decidable (s.Updates env) := inferInstanceAs (Decidable (_ ∧ _))

def writeFramebufferUpdate : Except WriterError Connection :=
  if s.Updates env then s.writeNoDataUpdate >>= fun s => s.writeDataUpdate env else .ok s

def handle : ConnectionEvent → Except WriterError Connection
  | .mark e => s.conn.handle e >>= fun conn =>
    .ok { s with conn := conn, updates := s.conn.track s.updates e }
  | .addChanged region => .ok { s with updates := s.updates.addChanged region }
  | .addCopied dest delta => .ok { s with updates := s.updates.addCopied dest delta }
  | .addCopypassed rects => .ok { s with updates := s.updates.addCopypassed rects }
  | .renderedCursorChange rendered =>
    .ok { s with updates := { s.updates with
      removeRenderedCursor :=
        s.updates.removeRenderedCursor || s.updates.damagedCursorRegion ≠ ∅
      updateRenderedCursor := s.updates.updateRenderedCursor || rendered } }
  | .endContinuousUpdates r => s.conn.endContinuousUpdates >>= fun conn =>
    .ok { s with conn := conn, updates := { s.updates with
      continuousUpdates := false, cuRegion := Region.ofRect r } }
  | .videoTimeout videoTime frameRate pbRect =>
    .ok { s with
      updates := s.updates.addChanged (Region.ofRect pbRect)
      encodeManager := s.encodeManager.videoTimeout videoTime frameRate }
  | .writeFramebufferUpdate env => s.writeFramebufferUpdate env

/-- One event; a closed connection sees no more of them. -/
def step (e : ConnectionEvent) : Except WriterError Connection :=
  if s.conn.closed then .ok s else s.handle e

/-! ## Answers -/

/-- A call that forgets a request has written a FramebufferUpdate message. -/
def Answers (s s' : Connection) : Prop :=
  s.updates.requested ≠ ∅ → s'.updates.requested = ∅ →
    ∃ n outs, s'.conn.writer.os = s.conn.writer.os ++ .framebufferUpdate n :: outs

/-- A call that forgets a request has written the pending pseudo-rectangles. -/
def Flushes (s s' : Connection) : Prop :=
  s.updates.requested ≠ ∅ → s'.updates.requested = ∅ →
    s.conn.writer.needFakeUpdate = true → s'.conn.writer.needFakeUpdate = false

/-- The two calls of `writeFramebufferUpdate`, as far as it gets, swallow no
request. -/
def RequestAnswered (s : Connection) : ConnectionEvent → Prop
  | .writeFramebufferUpdate env => s.conn.closed = false → s.Updates env →
      ∀ s₁, s.writeNoDataUpdate = .ok s₁ → Answers s s₁ ∧
        ∀ s₂, s₁.writeDataUpdate env = .ok s₂ → Answers s₁ s₂ ∧ Flushes s₁ s₂
  | _ => True

/-- There is nothing to send but a refresh, and video prevents it. -/
def Swallows : Prop :=
  s.updates.NothingToSend (s.updateContext env) ∧
    s.updates.RefreshDue (s.updateContext env) ∧
    (s.encodeManager.videoDetected = true ∨ env.encode.videoModeAvailable = true)

/-- An attempted update does not come to a refresh that video prevents. -/
def RefreshSendable (s : Connection) : ConnectionEvent → Prop
  | .writeFramebufferUpdate env => s.conn.closed = false → s.Updates env →
      s.conn.writer.needNoDataUpdate = false → ¬ s.Swallows env
  | _ => True

/-! ## One call -/

section Calls

variable {s s' : Connection} {env : UpdateEnv}

theorem writeNoDataUpdate_answers (h : s.writeNoDataUpdate = .ok s') : Answers s s' := by
  intro hreq hcleared
  unfold writeNoDataUpdate at h
  split at h
  · obtain rfl := Except.ok.inj h
    exact absurd hcleared hreq
  · rename_i hneed
    obtain ⟨conn, hconn, hs'⟩ := of_bind_ok h
    obtain rfl := Except.ok.inj hs'
    obtain ⟨w, hw, hconn⟩ := of_bind_ok ((if_neg hneed).symm.trans hconn)
    obtain rfl := Except.ok.inj hconn
    exact SMsgWriter.writeNoDataUpdate_os hw

/-- Either something is written, or nothing is and the request is gone. -/
theorem writeNoDataUpdate_or (h : s.writeNoDataUpdate = .ok s') :
    (s.conn.writer.needNoDataUpdate = false ∧ s' = s) ∨
      (s'.updates.requested = ∅ ∧
        s'.updates.continuousUpdates = s.updates.continuousUpdates) := by
  unfold writeNoDataUpdate at h
  split at h
  · rename_i hneed
    obtain rfl := Except.ok.inj h
    exact Or.inl ⟨by simpa using hneed, rfl⟩
  · obtain ⟨conn, -, hs'⟩ := of_bind_ok h
    obtain rfl := Except.ok.inj hs'
    exact Or.inr ⟨rfl, rfl⟩

/-- The three outcomes of a data update for a request. -/
theorem writeDataUpdate_outcome (hcu : s.updates.continuousUpdates = false)
    (hreq : s.updates.requested ≠ ∅) (h : s.writeDataUpdate env = .ok s') :
    (¬ s.Swallows env ∧ s'.updates.requested = s.updates.requested) ∨
    (¬ s.Swallows env ∧ ∃ ui, s.encodeManager.Updated (s.encodeContext env) ui
      s.conn.writer s'.conn.writer) ∨
    (s.Swallows env ∧ s'.updates.requested = ∅ ∧ s'.conn.writer = s.conn.writer) := by
  have hrequest : s.updates.request = s.updates.requested := by
    unfold ClientUpdates.request
    rw [hcu]
    rfl
  obtain ⟨hupdate, hnothing, hrefresh⟩ :=
    @ClientUpdates.writeDataUpdate_cases (s.updateContext env) s.updates (hrequest ▸ hreq)
  unfold writeDataUpdate at h
  generalize s.updates.writeDataUpdate (s.updateContext env) = r at *
  obtain ⟨u, outcome⟩ := r
  dsimp only at *
  by_cases hnone : s.updates.NothingToSend (s.updateContext env)
  · by_cases hdue : s.updates.RefreshDue (s.updateContext env)
    · obtain ⟨rfl, hcleared⟩ := hrefresh hnone hdue
      obtain ⟨⟨m, w⟩, hwrite, hs'⟩ := of_bind_ok h
      obtain rfl := Except.ok.inj hs'
      unfold EncodeManager.writeLosslessRefresh at hwrite
      split at hwrite
      · rename_i hvideo
        obtain ⟨-, rfl⟩ := Prod.mk.inj (Except.ok.inj hwrite)
        exact Or.inr (Or.inr ⟨⟨hnone, hdue, Bool.or_eq_true_iff.mp hvideo⟩, hcleared, rfl⟩)
      · rename_i hvideo
        exact Or.inr (Or.inl ⟨fun hs => hvideo (Bool.or_eq_true_iff.mpr hs.2.2), _,
          EncodeManager.updated_of_doUpdate hwrite⟩)
    · obtain ⟨rfl, hkept⟩ := hnothing hnone hdue
      obtain rfl := Except.ok.inj h
      exact Or.inl ⟨fun hs => hdue hs.2.1, hkept⟩
  · obtain ⟨⟨ui, rfl⟩, -⟩ := hupdate hnone
    obtain ⟨⟨m, w⟩, hwrite, hs'⟩ := of_bind_ok h
    obtain rfl := Except.ok.inj hs'
    exact Or.inr (Or.inl ⟨fun hs => hnone hs.1, ui,
      EncodeManager.updated_of_doUpdate hwrite⟩)

/-- A data update answers the request exactly if it is not swallowed. -/
theorem writeDataUpdate_answers_iff (hcu : s.updates.continuousUpdates = false)
    (hreq : s.updates.requested ≠ ∅) (h : s.writeDataUpdate env = .ok s') :
    Answers s s' ↔ ¬ s.Swallows env := by
  rcases writeDataUpdate_outcome hcu hreq h with
    ⟨hnot, hkept⟩ | ⟨hnot, ui, hupdated⟩ | ⟨hswallows, hcleared, hsame⟩
  · exact iff_of_true (fun _ hcleared => absurd (hkept.symm.trans hcleared) hreq) hnot
  · obtain ⟨n, outs, hos, -⟩ := hupdated.os
    exact iff_of_true (fun _ _ => ⟨n, outs, hos⟩) hnot
  · refine iff_of_false (fun hanswers => ?_) (not_not.mpr hswallows)
    obtain ⟨n, outs, hos⟩ := hanswers hreq hcleared
    rw [hsame] at hos
    exact absurd (List.self_eq_append_right.mp hos) (List.cons_ne_nil _ _)

theorem writeDataUpdate_flushes (hcu : s.updates.continuousUpdates = false)
    (hneed : s.conn.writer.needNoDataUpdate = false) (hnot : ¬ s.Swallows env)
    (h : s.writeDataUpdate env = .ok s') : Flushes s s' := by
  intro hreq hcleared _
  rcases writeDataUpdate_outcome hcu hreq h with
    ⟨-, hkept⟩ | ⟨-, ui, hupdated⟩ | ⟨hswallows, -⟩
  · exact absurd (hkept.symm.trans hcleared) hreq
  · simp [SMsgWriter.needFakeUpdate, hupdated.need, hupdated.needNoDataUpdate, hneed]
  · exact absurd hswallows hnot

/-- **One attempt.** -/
theorem requestAnswered_of_sendable (hcu : s.updates.continuousUpdates = false)
    {e : ConnectionEvent} (he : s.RefreshSendable e) : s.RequestAnswered e := by
  cases e with
  | writeFramebufferUpdate env =>
    intro hopen hupdates s₁ hs₁
    refine ⟨writeNoDataUpdate_answers hs₁, fun s₂ hs₂ => ?_⟩
    rcases writeNoDataUpdate_or hs₁ with ⟨hneed, rfl⟩ | ⟨hcleared, -⟩
    · have hnot : ¬ s₁.Swallows env := he hopen hupdates hneed
      refine ⟨fun hreq => ?_, writeDataUpdate_flushes hcu hneed hnot hs₂⟩
      exact (writeDataUpdate_answers_iff hcu hreq hs₂).mpr hnot hreq
    · exact ⟨fun hreq => absurd hcleared hreq, fun hreq => absurd hcleared hreq⟩
  | _ => trivial

/-- An attempt that leaves neither the request nor anything new in the stream. -/
theorem not_answered (hopen : s.conn.closed = false)
    (hneed : s.conn.writer.needNoDataUpdate = false)
    (h : s.step (.writeFramebufferUpdate env) = .ok s') (hreq : s.updates.requested ≠ ∅)
    (hcleared : s'.updates.requested = ∅) (hos : s'.conn.writer.os = s.conn.writer.os) :
    ¬ s.RequestAnswered (.writeFramebufferUpdate env) := by
  intro hanswered
  have hwrite : s.writeFramebufferUpdate env = .ok s' :=
    (if_neg (by rw [hopen]; exact Bool.false_ne_true)).symm.trans h
  by_cases hupdates : s.Updates env
  · have hnone : s.writeNoDataUpdate = .ok s := if_pos (by rw [hneed]; rfl)
    obtain ⟨-, hdata⟩ := hanswered hopen hupdates s hnone
    have hdataUpdate : s.writeDataUpdate env = .ok s' :=
      (bind_ok hnone _).symm.trans ((if_pos hupdates).symm.trans hwrite)
    obtain ⟨n, outs, hsent⟩ := (hdata s' hdataUpdate).1 hreq hcleared
    rw [hos] at hsent
    exact absurd (List.self_eq_append_right.mp hsent) (List.cons_ne_nil _ _)
  · obtain rfl := Except.ok.inj ((if_neg hupdates).symm.trans hwrite)
    exact hreq hcleared

end Calls

/-! ## Runs -/

theorem track_continuousUpdates (c : Conn) (u : ClientUpdates) (e : MarkEvent) :
    (c.track u e).continuousUpdates = u.continuousUpdates := by
  cases e <;> rfl

/-- Continuous updates stay off unless they are enabled. -/
theorem step_continuousUpdates {s s' : Connection} {e : ConnectionEvent}
    (hcu : s.updates.continuousUpdates = false) (h : s.step e = .ok s') :
    s'.updates.continuousUpdates = false := by
  unfold step at h
  split at h
  · obtain rfl := Except.ok.inj h
    exact hcu
  cases e with
  | mark e =>
    obtain ⟨conn, -, hs'⟩ := of_bind_ok h
    obtain rfl := Except.ok.inj hs'
    exact (track_continuousUpdates s.conn s.updates e).trans hcu
  | addCopypassed rects =>
    obtain rfl := Except.ok.inj h
    show (s.updates.addCopypassed rects).continuousUpdates = false
    unfold ClientUpdates.addCopypassed
    split
    · exact hcu
    · exact hcu
  | endContinuousUpdates r =>
    obtain ⟨conn, -, hs'⟩ := of_bind_ok h
    obtain rfl := Except.ok.inj hs'
    rfl
  | writeFramebufferUpdate env =>
    have h : s.writeFramebufferUpdate env = .ok s' := h
    unfold writeFramebufferUpdate at h
    split at h
    · obtain ⟨s₁, hs₁, hs'⟩ := of_bind_ok h
      have hcu₁ : s₁.updates.continuousUpdates = false := by
        rcases writeNoDataUpdate_or hs₁ with ⟨-, rfl⟩ | ⟨-, hsame⟩
        · exact hcu
        · exact hsame.trans hcu
      have hkept := (@ClientUpdates.continuousUpdates_writeDataUpdate
        (s₁.updateContext env) s₁.updates).trans hcu₁
      unfold writeDataUpdate at hs'
      dsimp only at hs'
      split at hs'
      · obtain rfl := Except.ok.inj hs'
        exact hkept
      · obtain ⟨r, -, hs'⟩ := of_bind_ok hs'
        obtain rfl := Except.ok.inj hs'
        exact hkept
      · obtain ⟨r, -, hs'⟩ := of_bind_ok hs'
        obtain rfl := Except.ok.inj hs'
        exact hkept
    · obtain rfl := Except.ok.inj h
      exact hcu
  | _ =>
    obtain rfl := Except.ok.inj h
    exact hcu

/-- After `authSuccess`: the whole display is dirty, and nothing is requested. -/
def start (width height : ℕ) (layout : ScreenSet) (name : String) (ledState : BitVec 32)
    (videoTime : ℕ) : Connection where
  conn := Conn.start width height layout name ledState
  updates :=
    { updates := ⟨Region.ofRect ⟨(0, 0), (width, height)⟩, ∅, 0, true⟩
      copypassed := []
      requested := ∅
      continuousUpdates := false
      cuRegion := ∅
      updateRenderedCursor := false
      removeRenderedCursor := false
      damagedCursorRegion := ∅
      udpFramesSinceFull := 0 }
  encodeManager := ⟨videoTime = 0, fun _ => 0, 0⟩

end Connection

/-- **No request is swallowed.** In a run without continuous updates in which no
attempted update comes to a refresh that video prevents, each call that forgets a
request has written an update, together with all that was pending. -/
theorem requests_answered {s : Connection} (hcu : s.updates.continuousUpdates = false)
    {es : List ConnectionEvent}
    (h : TryGuarded Connection.step Connection.RefreshSendable s es) :
    TryGuarded Connection.step Connection.RequestAnswered s es :=
  tryGuarded_imp (I := fun s => s.updates.continuousUpdates = false)
    (fun _ _ _ hcu hs' => Connection.step_continuousUpdates hcu hs')
    (fun _ _ hcu he => Connection.requestAnswered_of_sendable hcu he) hcu h

/-- A screen of one pixel, without pending changes and without a cursor. -/
def onePixelEnv (videoModeAvailable : Bool) : UpdateEnv where
  ready := true
  update :=
    { useCopyRect := false
      supportsUdp := false
      screen := ⟨(0, 0), (0, 0)⟩
      pending := ∅
      pbRect := ⟨(0, 0), (1, 1)⟩
      needRenderedCursor := false
      cursorRect := ⟨(0, 0), (0, 0)⟩
      udpFullFrameFrequency := 0
      needFakeUpdate := false
      lossyRegion := ∅
      losslessDue := false }
  encode := { onePixelContext false false with videoModeAvailable := videoModeAvailable }
  refresh := id

/-- The first request is answered with the whole screen. -/
theorem requests_answered_first :
    TryGuarded Connection.step Connection.RequestAnswered (Connection.start 1 1 [] "x" 0 1)
      [.mark (.framebufferUpdateRequest ⟨(0, 0), (1, 1)⟩ true),
        .writeFramebufferUpdate (onePixelEnv false)] := by
  refine requests_answered rfl (tryGuarded_cons trivial rfl ⟨fun _ _ _ hswallows => ?_, ?_⟩)
  · rcases hswallows.2.2 with hvideo | hvideo
    · cases hvideo
    · cases hvideo
  · exact fun _ _ => trivial

/-- After the first update, a new name and a request for what has changed: with
a video codec the request is forgotten and the name never sent. -/
theorem pending_name_swallowed :
    ¬ ∀ es : List ConnectionEvent, TryGuarded Connection.step Connection.RequestAnswered
      (Connection.start 1 1 [] "x" 0 1) es := by
  intro h
  let e : ConnectionEvent := .writeFramebufferUpdate (onePixelEnv true)
  let request : ConnectionEvent :=
    .mark (.framebufferUpdateRequest ⟨(0, 0), (1, 1)⟩ true)
  let es : List ConnectionEvent :=
    [request, e, .mark (.setEncodings false [pseudoEncodingDesktopName] false ⟨1, 1, (0, 0)⟩),
      .mark (.setDesktopName "y"), request]
  let view (s : Connection) : Region × List WriterOut × Bool × Bool :=
    (s.updates.requested, s.conn.writer.os, s.conn.closed, s.conn.writer.needNoDataUpdate)
  have hbefore : (tryRun Connection.step (Connection.start 1 1 [] "x" 0 1) es).map view =
      .ok ({(0, 0)}, [.framebufferUpdate 1, .rect 0 0 1 1 0], false, false) := by
    decide
  have hafter : (tryRun Connection.step (Connection.start 1 1 [] "x" 0 1) (es ++ [e])).map view =
      .ok (∅, [.framebufferUpdate 1, .rect 0 0 1 1 0], false, false) := by
    decide
  obtain ⟨s, hs, hview⟩ := of_map_ok hbefore
  obtain ⟨s', hs', hview'⟩ := of_map_ok hafter
  rw [tryRun_concat, bind_ok hs] at hs'
  simp only [view, Prod.mk.injEq] at hview hview'
  obtain ⟨hreq, hos, hopen, hneed⟩ := hview
  obtain ⟨hcleared, hos', -⟩ := hview'
  exact Connection.not_answered hopen hneed hs' (by rw [hreq]; decide) hcleared
    (hos'.trans hos.symm) ((h (es ++ [e])).last hs)

end KasmVNC.Rfb
