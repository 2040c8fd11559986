import KasmVNC.Rfb.ServerFrames

/-!
# Where CopyRect is sent

A client may be sent CopyRect rectangles if it has asked for the encoding, if it is not on
the UDP channel and if QOI is not in use. The connection's `useCopyRect` stands for this. It
switches the copies of the tracker; the copied lines of scrolls come from a queue that it does
not switch.
-/

namespace KasmVNC.Rfb

open KasmVNC.Lib

variable {C : Type*} {dir : ScrollDirection}

/-! ## When it is allowed -/

namespace ConnParams

/-- The current encoding list has CopyRect, there is no UDP channel and no QOI. -/
def AllowsCopyRect (cp : ConnParams) : Prop :=
  cp.supportsEncoding encodingCopyRect = true ∧ cp.supportsUdp = false ∧ cp.supportsQOI = false

instance (cp : ConnParams) : Decidable cp.AllowsCopyRect :=
  inferInstanceAs (Decidable (_ ∧ _ ∧ _))

section SetEncodings

variable (watermarkImage : Bool) (encodings : List ℤ) (cp : ConnParams)

@[simp] theorem setEncodings_supportsQOI :
    (cp.setEncodings watermarkImage encodings).supportsQOI =
      decide (pseudoEncodingQOI ∈ encodings) :=
  (foldr_flag (·.supportsQOI) _ (fun _ _ => rfl) _ _).trans (Bool.false_or _)

@[simp] theorem setEncodings_supportsUdp :
    (cp.setEncodings watermarkImage encodings).supportsUdp = cp.supportsUdp :=
  foldr_same (·.supportsUdp) (fun _ _ => rfl) _ _

theorem setEncodings_useCopyRect :
    (cp.setEncodings watermarkImage encodings).useCopyRect =
      (decide (encodingCopyRect ∈ encodings) && !decide (pseudoEncodingQOI ∈ encodings) &&
        !watermarkImage) := by
  have hcopy : (encodings.foldr addEncoding cp.resetEncodings).useCopyRect =
      decide (encodingCopyRect ∈ encodings) :=
    (foldr_flag (·.useCopyRect) _ (fun _ _ => rfl) _ _).trans (Bool.false_or _)
  have hqoi : (encodings.foldr addEncoding cp.resetEncodings).supportsQOI =
      decide (pseudoEncodingQOI ∈ encodings) :=
    (foldr_flag (·.supportsQOI) _ (fun _ _ => rfl) _ _).trans (Bool.false_or _)
  rw [← hcopy, ← hqoi]
  rfl

/-- SetEncodings leaves the flag right, except on the UDP channel. -/
theorem setEncodings_allows
    (hudp : cp.supportsUdp = true →
      watermarkImage = true ∨ encodingCopyRect ∉ encodings ∨ pseudoEncodingQOI ∈ encodings)
    (huse : (cp.setEncodings watermarkImage encodings).useCopyRect = true) :
    (cp.setEncodings watermarkImage encodings).AllowsCopyRect := by
  rw [setEncodings_useCopyRect, Bool.and_eq_true, Bool.and_eq_true] at huse
  obtain ⟨⟨hcopy, hqoi⟩, hmark⟩ := huse
  have hmem : encodingCopyRect ∈ encodings := of_decide_eq_true hcopy
  have hnone : pseudoEncodingQOI ∉ encodings := by simpa using hqoi
  refine ⟨?_, ?_, ?_⟩
  · rw [setEncodings_supportsEncoding _ _ _ (by decide)]
    exact hcopy
  · rw [setEncodings_supportsUdp]
    by_contra hon
    rcases hudp (Bool.eq_true_of_not_eq_false hon) with h | h | h
    · rw [h] at hmark
      cases hmark
    · exact h hmem
    · exact hnone h
  · rw [setEncodings_supportsQOI]
    exact decide_eq_false hnone

end SetEncodings

end ConnParams

/-! ## The rectangles that are written -/

/-- The CopyRect rectangles of an update, with their sources, in the order in which they are
written. -/
def UpdateInfo.copyRects (ui : UpdateInfo) : List (Rect × Point) :=
  (ui.copied.getRects (ui.copyDelta.1 ≤ 0) (ui.copyDelta.2 ≤ 0)).map
      (fun r => (r, (r.tl.1 - ui.copyDelta.1, r.tl.2 - ui.copyDelta.2))) ++
    ui.copypassed.map (fun c => (c.rect, ((c.srcX : ℤ), (c.srcY : ℤ))))

theorem UpdateInfo.copyRects_eq_nil {ui : UpdateInfo} (hcopied : ui.copied = ∅)
    (hpassed : ui.copypassed = []) : ui.copyRects = [] := by
  rw [copyRects, hcopied, hpassed, Region.getRects_eq_nil.mpr rfl]
  rfl

/-- A lossless refresh has no copies. -/
def DataUpdate.copyRects : DataUpdate → List (Rect × Point)
  | .update ui => ui.copyRects
  | .nothing => []
  | .losslessRefresh _ => []

namespace FrameServer

variable (cfg : FrameSettings C) (s : FrameServer C dir)

/-- The CopyRect rectangles that an update writes to a client. -/
def copyRectsSent (cl : FrameClient C) (i : UpdateInput C) : List (Rect × Point) :=
  if Attempted cl then (s.dataUpdate cfg cl i).2.copyRects else []

/-- An event writes CopyRect only to a client that allows it. -/
def CopyRectsAllowed : FrameEvent C dir → Prop
  | .writeFramebufferUpdate n i =>
    ∀ cl ∈ s.clients[n]?, s.copyRectsSent cfg cl i ≠ [] → cl.cp.AllowsCopyRect
  | _ => True

instance : ∀ e, Decidable (s.CopyRectsAllowed cfg e)
  | .writeFramebufferUpdate n _ => inferInstanceAs (Decidable (∀ cl ∈ s.clients[n]?, _))
  | .draw .. | .copy .. | .setPixelBuffer .. | .authSuccess .. | .removeSocket _ | .setEncodings ..
  | .udpUpgrade _ | .upgradeClientToUdp _ | .udpDowngrade _ | .framebufferUpdateRequest ..
  | .enableContinuousUpdates .. | .renderedCursorChange .. | .writeUpdate _ =>
    inferInstanceAs (Decidable True)

/-- What keeps the flag right: on the UDP channel, SetEncodings does not turn it on; a
client that goes back from UDP has CopyRect in its list and no QOI; and scrolled lines are
due only to clients that allow CopyRect. -/
def CopyRectGuard : FrameEvent C dir → Prop
  | .setEncodings n encodings => ∀ cl ∈ s.clients[n]?, cl.cp.supportsUdp = true →
      cfg.watermarkImage = true ∨ encodingCopyRect ∉ encodings ∨ pseudoEncodingQOI ∈ encodings
  | .udpDowngrade n => ∀ cl ∈ s.clients[n]?, cfg.watermarkImage = true ∨
      cl.cp.supportsEncoding encodingCopyRect = true ∧ cl.cp.supportsQOI = false
  | .writeFramebufferUpdate n i => ∀ cl ∈ s.clients[n]?,
      cl.updates.copypassed ≠ [] → cl.updates.request ≠ ∅ →
        (s.getPendingRegion i.blocked).2 = ∅ → cl.cp.AllowsCopyRect
  | _ => True

instance : ∀ e, Decidable (s.CopyRectGuard cfg e)
  | .setEncodings n _ => inferInstanceAs (Decidable (∀ cl ∈ s.clients[n]?, _))
  | .udpDowngrade n => inferInstanceAs (Decidable (∀ cl ∈ s.clients[n]?, _))
  | .writeFramebufferUpdate n _ => inferInstanceAs (Decidable (∀ cl ∈ s.clients[n]?, _))
  | .draw .. | .copy .. | .setPixelBuffer .. | .authSuccess .. | .removeSocket _
  | .udpUpgrade _ | .upgradeClientToUdp _ | .framebufferUpdateRequest ..
  | .enableContinuousUpdates .. | .renderedCursorChange .. | .writeUpdate _ =>
    inferInstanceAs (Decidable True)

end FrameServer

/-! ## What a client keeps -/

/-- The flag is on only where CopyRect is allowed, and without it the tracker soon has no
copies. -/
structure FrameClient.CopyRectRight (cl : FrameClient C) : Prop where
  gated : cl.updates.updates.Gated
  allows : cl.cp.useCopyRect = true → cl.cp.AllowsCopyRect

namespace FrameClient

variable {cl : FrameClient C}

theorem copyRectRight_authSuccess (size : FbSize) (image : Point → C)
    (copypassed : List CopyPassRect) : (authSuccess size image copypassed).CopyRectRight where
  gated := fun _ => rfl
  allows := fun h => nomatch h

namespace CopyRectRight

theorem pixelBufferChange (h : cl.CopyRectRight) (size : FbSize) :
    (cl.pixelBufferChange size).CopyRectRight where
  gated := (SimpleUpdateTracker.Gated.clear _).addChanged _
  allows := h.allows

theorem setEncodings (h : cl.CopyRectRight) {watermarkImage : Bool} {encodings : List ℤ}
    (hudp : cl.cp.supportsUdp = true →
      watermarkImage = true ∨ encodingCopyRect ∉ encodings ∨ pseudoEncodingQOI ∈ encodings) :
    (cl.setEncodings watermarkImage encodings).CopyRectRight where
  gated := h.gated
  allows := ConnParams.setEncodings_allows _ _ _ hudp

theorem upgraded (h : cl.CopyRectRight) : cl.upgraded.CopyRectRight where
  gated := h.gated
  allows := fun h => nomatch h

theorem udpDowngrade (h : cl.CopyRectRight) {watermarkImage : Bool}
    (hlist : watermarkImage = true ∨
      cl.cp.supportsEncoding encodingCopyRect = true ∧ cl.cp.supportsQOI = false) :
    (cl.udpDowngrade watermarkImage).CopyRectRight where
  gated := h.gated
  allows := by
    intro huse
    have hmark : (!watermarkImage) = true := huse
    rcases hlist with hon | ⟨hcopy, hqoi⟩
    · rw [hon] at hmark
      cases hmark
    · exact ⟨hcopy, rfl, hqoi⟩

theorem framebufferUpdateRequest (h : cl.CopyRectRight) (r : Rect) (incremental : Bool) :
    (cl.framebufferUpdateRequest r incremental).CopyRectRight where
  gated := by
    cases incremental with
    | true => exact h.gated
    | false => exact h.gated.addChanged _
  allows := h.allows

theorem enableContinuousUpdates (h : cl.CopyRectRight) (enable : Bool) (r : Rect) :
    (cl.enableContinuousUpdates enable r).CopyRectRight := by
  unfold FrameClient.enableContinuousUpdates
  split
  · exact h
  · exact ⟨h.gated, h.allows⟩

theorem addUpdate (h : cl.CopyRectRight) (ui : UpdateInfo) :
    (cl.addUpdate ui).CopyRectRight where
  gated := by
    refine SimpleUpdateTracker.Gated.addChanged ?_ ui.changed
    have hcopied := h.gated.addCopied ui.copied ui.copyDelta
    unfold ClientUpdates.addCopypassed
    split
    · exact hcopied.addChanged _
    · exact hcopied
  allows := h.allows

theorem clientUpdate (h : cl.CopyRectRight) (cfg : FrameSettings C) (s : FrameServer C dir)
    (i : UpdateInput C) : (s.clientUpdate cfg i cl).CopyRectRight := by
  unfold FrameServer.clientUpdate
  split
  · exact ⟨ClientUpdates.gated_writeDataUpdate h.gated, h.allows⟩
  · exact h

end CopyRectRight

end FrameClient

namespace FrameServer

variable {cfg : FrameSettings C} {s : FrameServer C dir}

/-- Copies in an update come from the tracker, or from the queue while nothing is pending. -/
theorem copyRectsSent_source {cl : FrameClient C} {i : UpdateInput C} (h : cl.CopyRectRight)
    (hsent : s.copyRectsSent cfg cl i ≠ []) :
    cl.cp.useCopyRect = true ∨ cl.updates.copypassed ≠ [] ∧ cl.updates.request ≠ ∅ ∧
      (s.getPendingRegion i.blocked).2 = ∅ := by
  let ctx := s.updateContext cfg cl i
  have hcopies : (cl.updates.writeDataUpdate ctx).2.copyRects ≠ [] := by
    unfold copyRectsSent at hsent
    split at hsent
    · exact hsent
    · exact absurd rfl hsent
  by_cases hreq : cl.updates.request = ∅
  · rw [ClientUpdates.writeDataUpdate_unrequested hreq] at hcopies
    exact absurd rfl hcopies
  obtain ⟨hsome, hnone⟩ := @ClientUpdates.writeDataUpdate_outcome ctx cl.updates hreq
  cases hempty : (cl.updates.handed ctx).isEmpty with
  | true =>
    rcases (hnone hempty).2 with ⟨hout, -⟩ | ⟨hout, -⟩
    · rw [hout] at hcopies
      exact absurd rfl hcopies
    · rw [hout] at hcopies
      exact absurd rfl hcopies
  | false =>
    rw [(hsome hempty).1] at hcopies
    by_cases hcopied : (cl.updates.handed ctx).copied = ∅
    · refine .inr ?_
      have hpassed : (cl.updates.handed ctx).copypassed ≠ [] := fun hnil =>
        hcopies (UpdateInfo.copyRects_eq_nil hcopied hnil)
      rw [ClientUpdates.handed_copypassed] at hpassed
      split at hpassed
      · exact absurd rfl hpassed
      · next hpending => exact ⟨hpassed, hreq, not_not.mp hpending⟩
    · exact .inl (ClientUpdates.handed_copied h.gated hcopied)

/-! ## Runs -/

/-- What every client keeps. -/
def CopyRectsRight (s : FrameServer C dir) : Prop := ∀ cl ∈ s.clients, cl.CopyRectRight

theorem copyRectsRight_onClient (h : s.CopyRectsRight) (n : ℕ) {f : FrameClient C → FrameClient C}
    (hf : ∀ cl ∈ s.clients[n]?, cl.CopyRectRight → (f cl).CopyRectRight) :
    (s.onClient n f).CopyRectsRight :=
  forall_mem_modify h hf

theorem copyRectsRight_step [DecidableEq C] (e : FrameEvent C dir) (h : s.CopyRectsRight)
    (hguard : s.CopyRectGuard cfg e) : (s.step cfg e).CopyRectsRight := by
  cases e with
  | draw region fresh => exact h
  | copy dest delta => exact h
  | setPixelBuffer size screen pb scrollHasher oldFb =>
    rintro cl hcl
    obtain ⟨old, hold, rfl⟩ := List.mem_map.mp hcl
    exact (h old hold).pixelBufferChange size
  | authSuccess image copypassed =>
    rintro cl hcl
    rcases List.mem_append.mp hcl with hold | hnew
    · exact h cl hold
    · obtain rfl := List.mem_singleton.mp hnew
      exact FrameClient.copyRectRight_authSuccess s.size image copypassed
  | removeSocket n => exact fun cl hcl => h cl (List.mem_of_mem_eraseIdx hcl)
  | setEncodings n encodings =>
    exact copyRectsRight_onClient h n fun cl hcl hright => hright.setEncodings (hguard cl hcl)
  | udpUpgrade n =>
    exact copyRectsRight_onClient h n fun cl _ hright => ⟨hright.gated, hright.allows⟩
  | upgradeClientToUdp sameAddress =>
    exact forall_mem_upgradeClientToUdp h fun cl _ hright => hright.upgraded
  | udpDowngrade n =>
    exact copyRectsRight_onClient h n fun cl hcl hright => hright.udpDowngrade (hguard cl hcl)
  | framebufferUpdateRequest n r incremental =>
    exact copyRectsRight_onClient h n fun cl _ hright =>
      hright.framebufferUpdateRequest r incremental
  | enableContinuousUpdates n enable r =>
    exact copyRectsRight_onClient h n fun cl _ hright => hright.enableContinuousUpdates enable r
  | renderedCursorChange n need =>
    exact copyRectsRight_onClient h n fun cl _ hright => ⟨hright.gated, hright.allows⟩
  | writeUpdate i =>
    rintro cl hcl
    rcases writeUpdate_clients cfg s i with hsame | ⟨ui, hadded⟩
    · exact h cl (hsame ▸ hcl)
    · rw [show (s.step cfg (.writeUpdate i)).clients = _ from hadded] at hcl
      obtain ⟨old, hold, rfl⟩ := List.mem_map.mp hcl
      exact (h old hold).addUpdate ui
  | writeFramebufferUpdate n i =>
    rintro cl hcl
    rcases writeFramebufferUpdate_clients cfg s n i hcl with hold | ⟨old, hold, rfl⟩
    · exact h cl hold
    · exact (h old (List.mem_of_getElem? hold)).clientUpdate cfg s i

/-- Under the guard, an update with copies goes to a client that allows them. -/
theorem copyRectsAllowed_of_guard (e : FrameEvent C dir) (h : s.CopyRectsRight)
    (hguard : s.CopyRectGuard cfg e) : s.CopyRectsAllowed cfg e := by
  cases e with
  | writeFramebufferUpdate n i =>
    intro cl hcl hsent
    have hright := h cl (List.mem_of_getElem? hcl)
    rcases copyRectsSent_source hright hsent with huse | ⟨hpassed, hreq, hpending⟩
    · exact hright.allows huse
    · exact hguard cl hcl hpassed hreq hpending
  | _ => trivial

/-- **CopyRect goes where it is allowed**, over every run of the server. -/
theorem copyRects_allowed [DecidableEq C] (size : FbSize) (screen pb : Point → C)
    (scrollHasher : ScrollHasher C dir) (oldFb : Point → C) (es : List (FrameEvent C dir))
    (hguard : Guarded (step cfg) (CopyRectGuard cfg) (start cfg size screen pb scrollHasher oldFb)
      es) :
    Guarded (step cfg) (CopyRectsAllowed cfg) (start cfg size screen pb scrollHasher oldFb) es :=
  guarded_imp (fun _ e h hok => copyRectsRight_step e h hok)
    (fun _ e h hok => copyRectsAllowed_of_guard e h hok)
    (fun _ hcl => absurd hcl List.not_mem_nil) hguard

/-! ## A screen of two pixels -/

theorem two_lt : 2 < 2 ^ 31 := by decide

/-- Two pixels in a row. -/
def twoPixels : FbSize := ⟨2, 1, two_lt⟩

/-- No DLP region, no watermark and no scroll detection; the X server draws into the pixel
buffer. -/
def plainSettings : FrameSettings Bool :=
  ⟨none, false, false, 0, ⟨false, 100⟩, fun _ => 0, true⟩

def darkImage : Point → Bool := fun _ => false

def noHashes : ScrollHasher Bool .vert :=
  ⟨0, 0, fun _ => 0, fun _ => 0, fun _ => 0, fun _ => 0, 0, 0, fun _ => false⟩

/-- Nothing is in the way of the update, there is no cursor, and nothing is lossy. -/
def quietUpdate : UpdateInput Bool :=
  ⟨false, false, ⟨(0, 0), (0, 0)⟩, darkImage, false, ∅, false, ∅, false⟩

/-- A client gets the framebuffer, the left pixel is copied to the right one, and the client
gets that. -/
def copiedPixel : List (FrameEvent Bool .vert) :=
  [.framebufferUpdateRequest 0 twoPixels.rect true, .writeUpdate ⟨false, false, ∅⟩,
    .writeFramebufferUpdate 0 quietUpdate, .copy (Region.ofRect ⟨(1, 0), (2, 1)⟩) (1, 0),
    .framebufferUpdateRequest 0 twoPixels.rect true, .writeUpdate ⟨false, false, ∅⟩,
    .writeFramebufferUpdate 0 quietUpdate]

/-- A client that has CopyRect in its list gets the copy. -/
theorem copyRects_allowed_two :
    Guarded (step plainSettings) (CopyRectsAllowed plainSettings)
      (start plainSettings twoPixels darkImage darkImage noHashes darkImage)
      (.authSuccess darkImage [] :: .setEncodings 0 [encodingCopyRect] :: copiedPixel) :=
  copyRects_allowed _ _ _ _ _ _ (by decide)

/-- A client that has only Raw in its list gets the copy too, once it has gone back from
UDP. -/
theorem downgraded_gets_copyRect :
    ¬Guarded (step plainSettings) (CopyRectsAllowed plainSettings)
      (start plainSettings twoPixels darkImage darkImage noHashes darkImage)
      (.authSuccess darkImage [] :: .setEncodings 0 [encodingRaw] :: .udpDowngrade 0 ::
        copiedPixel) := by
  decide

end FrameServer

end KasmVNC.Rfb
