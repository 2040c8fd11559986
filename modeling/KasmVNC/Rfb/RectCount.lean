import KasmVNC.Rfb.EncodeManager

/-!
# Announced and written rectangles

For a client without LastRect the header of an update states how many rectangles
follow. Each part of `doUpdate` sends a number of rectangles that is known
beforehand, or stops when the header has no room left. The count that is
announced is right except for a watermark that is configured but not sent, and
except when video detection or video frames change what is sent; 0 and 0xFFFF
rectangles stand for an unknown number.
-/

namespace KasmVNC.Rfb

open KasmVNC.Lib

/-! ## Parts that send a fixed number of rectangles -/

/-- What a part of an update leaves unchanged, and what it adds. -/
structure SMsgWriter.Sent (k : ℕ) (w w' : SMsgWriter) : Prop where
  nRectsInUpdate : w'.nRectsInUpdate = w.nRectsInUpdate + k
  nRectsInHeader : w'.nRectsInHeader = w.nRectsInHeader
  need : w'.need = w.need
  needNoDataUpdate : w'.needNoDataUpdate = w.needNoDataUpdate
  os : ∃ outs, w'.os = w.os ++ outs ∧ Unmarked outs

/-- The part sends `k` rectangles if the header has room for them, and else
complains. -/
def Sends (k : ℕ) (write : SMsgWriter → Except WriterError SMsgWriter) : Prop :=
  ∀ w : SMsgWriter, w.Room 0 →
    (w.Room k → ∃ w', write w = .ok w' ∧ w.Sent k w') ∧
    (¬ w.Room k → ∃ site, write w = .error (.outOfSync site))

namespace SMsgWriter

theorem Sent.refl (w : SMsgWriter) : w.Sent 0 w :=
  ⟨rfl, rfl, rfl, rfl, [], (List.append_nil _).symm, unmarked_nil⟩

theorem Sent.trans {j k : ℕ} {w w' w'' : SMsgWriter} (h : w.Sent j w') (h' : w'.Sent k w'') :
    w.Sent (j + k) w'' := by
  obtain ⟨outs, hos, houts⟩ := h.os
  obtain ⟨outs', hos', houts'⟩ := h'.os
  refine ⟨?_, h'.nRectsInHeader.trans h.nRectsInHeader, h'.need.trans h.need,
    h'.needNoDataUpdate.trans h.needNoDataUpdate, outs ++ outs', ?_,
    unmarked_append.mpr ⟨houts, houts'⟩⟩
  · rw [h'.nRectsInUpdate, h.nRectsInUpdate, add_assoc]
  · rw [hos', hos, List.append_assoc]

theorem Sent.room_iff {j k : ℕ} {w w' : SMsgWriter} (h : w.Sent j w') :
    w'.Room k ↔ w.Room (j + k) := by
  rw [Room, Room, h.nRectsInHeader, h.nRectsInUpdate, add_assoc]

theorem Sent.emit {k : ℕ} {w w' : SMsgWriter} (h : w.Sent k w') (cp : ConnParams)
    {out : WriterOut} (hout : out.isLastRect = false) : w.Sent k (w'.emit cp out) := by
  unfold SMsgWriter.emit
  split
  · exact ⟨h.nRectsInUpdate, h.nRectsInHeader, h.need, h.needNoDataUpdate, h.os⟩
  · obtain ⟨outs, hos, houts⟩ := h.os
    refine ⟨h.nRectsInUpdate, h.nRectsInHeader, h.need, h.needNoDataUpdate,
      outs ++ [out], ?_,
      unmarked_append.mpr ⟨houts, unmarked_cons.mpr ⟨hout, unmarked_nil⟩⟩⟩
    show w'.os ++ [out] = w.os ++ (outs ++ [out])
    rw [hos, List.append_assoc]

end SMsgWriter

section Sends

open SMsgWriter

theorem sends_ok : Sends 0 .ok := fun w h =>
  ⟨fun _ => ⟨w, rfl, Sent.refl w⟩, fun hn => absurd h hn⟩

theorem Sends.bind {j k : ℕ} {f g : SMsgWriter → Except WriterError SMsgWriter}
    (hf : Sends j f) (hg : Sends k g) : Sends (j + k) fun w => f w >>= g := by
  intro w h
  obtain ⟨hroom, hfull⟩ := hf w h
  by_cases hj : w.Room j
  · obtain ⟨w', hw', hsent⟩ := hroom hj
    obtain ⟨hroom', hfull'⟩ := hg w' (hsent.room_iff.mpr hj)
    constructor
    · intro hjk
      obtain ⟨w'', hw'', hsent'⟩ := hroom' (hsent.room_iff.mpr hjk)
      exact ⟨w'', (bind_ok hw' _).trans hw'', hsent.trans hsent'⟩
    · intro hjk
      obtain ⟨site, hsite⟩ := hfull' (mt hsent.room_iff.mp hjk)
      exact ⟨site, (bind_ok hw' _).trans hsite⟩
  · obtain ⟨site, hsite⟩ := hfull hj
    exact ⟨fun hjk => absurd (hjk.mono (Nat.le_add_right j k)) hj,
      fun _ => ⟨site, bind_error hsite _⟩⟩

theorem sends_startRect (cp : ConnParams) (r : Rect) (encoding : ℤ) :
    Sends 1 (startRect cp r encoding) := by
  intro w _
  constructor
  · intro hroom
    have hcount : w.Sent 1 { w with
        nRectsInUpdate := w.nRectsInUpdate + 1
        dataRectsInUpdate := w.dataRectsInUpdate + 1 } :=
      ⟨rfl, rfl, rfl, rfl, [], (List.append_nil _).symm, unmarked_nil⟩
    exact ⟨_, bind_ok (countRect_ok hroom _) _, hcount.emit cp rfl⟩
  · intro hfull
    have hover : w.nRectsInUpdate + 1 > w.nRectsInHeader ∧ w.nRectsInHeader ≠ 0 := by
      rw [Room] at hfull
      omega
    exact ⟨_, bind_error (if_pos hover) _⟩

theorem sends_writeCopyRect (cp : ConnParams) (r : Rect) (srcX srcY : ℤ) :
    Sends 1 (writeCopyRect cp r srcX srcY) := by
  intro w h
  obtain ⟨hroom, hfull⟩ := sends_startRect cp r encodingCopyRect w h
  constructor
  · intro h1
    obtain ⟨w', hw', hsent⟩ := hroom h1
    exact ⟨_, bind_ok hw' _, hsent.emit cp rfl⟩
  · intro h1
    obtain ⟨site, hsite⟩ := hfull h1
    exact ⟨site, bind_error hsite _⟩

/-- One rectangle per element. -/
theorem sends_foldlM {α : Type} {f : SMsgWriter → α → Except WriterError SMsgWriter}
    (hf : ∀ a, Sends 1 (f · a)) : ∀ l : List α, Sends l.length fun w => l.foldlM f w
  | [] => sends_ok
  | a :: l => by
    have hrest := (hf a).bind (sends_foldlM hf l)
    rw [add_comm] at hrest
    exact hrest

theorem sends_writeIf {k : ℕ} {f : SMsgWriter → Except WriterError SMsgWriter}
    (hf : Sends k f) : ∀ b : Bool, Sends (if b then k else 0) (writeIf b f)
  | true => hf
  | false => sends_ok

end Sends
/-! ## Counting tiles -/

namespace EncodeManager

variable (ctx : EncodeContext) (m : EncodeManager)

/-- The tiles of a rectangle have a positive size. -/
theorem subRect_pos {r : Rect} (hr : r.tl.1 < r.br.1) :
    0 < subWidth r ∧ 0 < subHeight r := by
  have hwidth : 0 < r.width := sub_pos.mpr hr
  have hmax : SubRectMaxWidth = 2048 := rfl
  have hsw : 0 < subWidth r ∧ subWidth r ≤ 2048 := by
    unfold subWidth
    split <;> omega
  refine ⟨hsw.1, Int.le_ediv_of_mul_le hsw.1 ?_⟩
  rw [zero_add, one_mul]
  exact hsw.2.trans (by decide)

/-- The loops of `writeRects` make as many tiles as `computeNumRects` counts. -/
theorem length_subRects {r : Rect} (hr : r.tl.1 < r.br.1 ∧ r.tl.2 < r.br.2) :
    (m.subRects ctx r).length = m.numSubRects ctx r := by
  unfold subRects numSubRects
  split
  · rfl
  · obtain ⟨hsw, hsh⟩ := subRect_pos hr.1
    have hrows := length_strides hsh hr.2
    have hcols := length_strides hsw hr.1
    rw [List.length_flatMap]
    simp only [List.length_map, List.map_const', List.sum_replicate_nat]
    rw [← Int.toNat_natCast (_ * _), Nat.cast_mul, hrows, hcols, mul_comm]
    rfl

theorem length_flatMap_subRects {rects : List Rect}
    (hrects : ∀ r ∈ rects, r.tl.1 < r.br.1 ∧ r.tl.2 < r.br.2) :
    (rects.flatMap (m.subRects ctx)).length = (rects.map (m.numSubRects ctx)).sum := by
  rw [List.length_flatMap]
  exact congrArg List.sum (List.map_congr_left fun r hr => length_subRects ctx m (hrects r hr))

theorem numSubRects_pos {r : Rect} (hr : r.tl.1 < r.br.1 ∧ r.tl.2 < r.br.2) :
    0 < m.numSubRects ctx r := by
  unfold numSubRects
  split
  · exact Nat.one_pos
  · obtain ⟨hsw, hsh⟩ := subRect_pos hr.1
    have hcols : 0 ≤ (r.width - 1) / subWidth r :=
      Int.ediv_nonneg (Int.le_sub_one_of_lt (sub_pos.mpr hr.1)) hsw.le
    have hrows : 0 ≤ (r.height - 1) / subHeight r :=
      Int.ediv_nonneg (Int.le_sub_one_of_lt (sub_pos.mpr hr.2)) hsh.le
    have hpos : 0 < ((r.width - 1) / subWidth r + 1) * ((r.height - 1) / subHeight r + 1) :=
      Int.mul_pos (by omega) (by omega)
    omega

/-- Every rectangle becomes at least one tile. -/
theorem computeNumRects_eq_zero {changed : Region} :
    m.computeNumRects ctx changed = 0 ↔ changed = ∅ := by
  have hnil := @Region.getRects_eq_nil changed true true
  constructor
  · intro hzero
    refine hnil.mp (List.eq_nil_iff_forall_not_mem.mpr fun r hr => ?_)
    have hnone := List.sum_eq_zero_iff_forall_eq_nat.mp hzero _ (List.mem_map_of_mem hr)
    exact (numSubRects_pos ctx m (Region.getRects_nonempty hr)).ne' hnone
  · intro hempty
    rw [computeNumRects, hnil.mpr hempty]
    rfl

/-- The rule for tiles depends on the state only through legacy video mode. -/
theorem computeNumRects_congr {m m' : EncodeManager}
    (h : m.legacyVideo ctx = m'.legacyVideo ctx) (changed : Region) :
    m.computeNumRects ctx changed = m'.computeNumRects ctx changed := by
  unfold computeNumRects numSubRects unsplit
  rw [h]

/-! ## The number of rectangles of an update -/

/-- What `writeRects` sends. -/
def mainCount (changed : Region) : ℕ :=
  if m.legacyVideo ctx then (m.subRects ctx ctx.pbRect).length
  else m.computeNumRects ctx changed

theorem sends_writeRects (changed : Region) :
    Sends (m.mainCount ctx changed) (m.writeRects ctx changed) := by
  have hlength : ((m.mainRects ctx changed).flatMap (m.subRects ctx)).length =
      m.mainCount ctx changed := by
    unfold mainRects mainCount
    split
    · rw [List.flatMap_singleton]
    · exact length_flatMap_subRects ctx m fun r hr => Region.getRects_nonempty hr
  rw [← hlength]
  exact sends_foldlM (fun r => sends_startRect ctx.cp r _) _

/-- What is sent of the changed pixels. -/
def pixelCount (changed cursorRegion : Region) : ℕ :=
  match videoFrames ctx changed with
  | some screens => screens.length
  | none => (solidPart ctx changed).length +
      ((m.detect ctx changed).mainCount ctx (remaining ctx changed) +
        if !(m.detect ctx changed).videoDetected then
          (m.detect ctx changed).mainCount ctx cursorRegion
        else 0)

theorem sends_writePixels (changed cursorRegion : Region) :
    Sends (m.pixelCount ctx changed cursorRegion) (m.writePixels ctx changed cursorRegion) := by
  unfold pixelCount writePixels
  cases videoFrames ctx changed with
  | some screens => exact sends_foldlM (fun r => sends_startRect ctx.cp r _) screens
  | none =>
    have hsolid := sends_foldlM (fun r => sends_startRect ctx.cp r (ctx.encodingOf r))
      (solidPart ctx changed)
    exact hsolid.bind ((sends_writeRects ctx _ _).bind
      (sends_writeIf (sends_writeRects ctx _ _) _))

/-- The rectangles of `doUpdate` between the header and the end. -/
def sentRects (ui : UpdateInfo) : ℕ :=
  ui.copied.numRects + (ui.copypassed.length +
    (m.pixelCount ctx (outsideCursor ctx ui.changed) (cursorRegion ctx ui.changed) +
      if ctx.watermarkData && ctx.sendWatermark then 1 else 0))

theorem sends_writeBody (ui : UpdateInfo) :
    Sends (m.sentRects ctx ui) (m.writeBody ctx ui) := by
  have hcopied := sends_foldlM (fun r : Rect => sends_writeCopyRect ctx.cp r
    (r.tl.1 - ui.copyDelta.1) (r.tl.2 - ui.copyDelta.2))
    (ui.copied.getRects (ui.copyDelta.1 ≤ 0) (ui.copyDelta.2 ≤ 0))
  rw [Region.length_getRects] at hcopied
  have hcopypassed := sends_foldlM (fun c : CopyPassRect =>
    sends_writeCopyRect ctx.cp c.rect c.srcX c.srcY) ui.copypassed
  exact hcopied.bind (hcopypassed.bind ((sends_writePixels ctx m _ _).bind
    (sends_writeIf (sends_startRect ctx.cp _ _) _)))

/-- The number in the header: the announced rectangles and the pending
pseudo-rectangles, with 0xFFFF as the unknown number. -/
def headerCount (ui : UpdateInfo) (w : SMsgWriter) : ℕ :=
  (w.startUpdate (m.nRects ctx ui)).nRectsInHeader

/-- The state after the header and the pseudo-rectangles. -/
structure Started (ui : UpdateInfo) (w w₁ : SMsgWriter) : Prop where
  nRectsInUpdate : w₁.nRectsInUpdate = w.need.card
  nRectsInHeader : w₁.nRectsInHeader = m.headerCount ctx ui w
  need : w₁.need = ∅
  needNoDataUpdate : w₁.needNoDataUpdate = w.needNoDataUpdate
  room : w₁.Room 0
  os : ∃ n outs, w₁.os = w.os ++ .framebufferUpdate n :: outs ∧ Unmarked outs

/-- The state after an update. -/
structure Updated (ui : UpdateInfo) (w w' : SMsgWriter) : Prop where
  nRectsInUpdate : w'.nRectsInUpdate = w.need.card + m.sentRects ctx ui
  nRectsInHeader : w'.nRectsInHeader = m.headerCount ctx ui w
  need : w'.need = ∅
  needNoDataUpdate : w'.needNoDataUpdate = w.needNoDataUpdate
  /-- The marker stands at the end exactly if the header has no count. -/
  os : ∃ n outs, w'.os = w.os ++ .framebufferUpdate n :: outs ∧
    (Unmarked outs ↔ m.headerCount ctx ui w ≠ 0)

section Outcome

variable {ctx m} {ui : UpdateInfo} {w : SMsgWriter}

theorem start_ok (hs : ∀ p ∈ w.need, p.supported ctx.cp = true) :
    ∃ w₁, w.writeFramebufferUpdateStart ctx.cp (m.nRects ctx ui) = .ok w₁ ∧
      m.Started ctx ui w w₁ := by
  obtain ⟨outs, hlen, hmarks, hstart⟩ :=
    SMsgWriter.writeFramebufferUpdateStart_ok hs (m.nRects ctx ui)
  have hroom : (w.startUpdate (m.nRects ctx ui)).Room (outs.length + 0) := by
    rw [hlen]
    exact SMsgWriter.startUpdate_room w _
  refine ⟨_, hstart, ⟨?_, rfl, rfl, rfl, SMsgWriter.Room.wrote hroom, _, outs,
    List.append_assoc _ _ _, hmarks⟩⟩
  show 0 + outs.length = w.need.card
  rw [zero_add, hlen]

/-- The header makes no promise, or keeps it. -/
theorem doUpdate_ok (hs : ∀ p ∈ w.need, p.supported ctx.cp = true)
    (h : m.headerCount ctx ui w = 0 ∨
      w.need.card + m.sentRects ctx ui = m.headerCount ctx ui w) :
    ∃ w', m.doUpdate ctx ui w = .ok (m.detect ctx (outsideCursor ctx ui.changed), w') ∧
      m.Updated ctx ui w w' := by
  obtain ⟨w₁, hstart, h₁⟩ := @start_ok ctx m ui w hs
  obtain ⟨w₂, hbody, h₂⟩ := (sends_writeBody ctx m ui w₁ h₁.room).1 (by
    rw [SMsgWriter.Room, h₁.nRectsInUpdate, h₁.nRectsInHeader]
    omega)
  have hcount : w₂.nRectsInUpdate = w.need.card + m.sentRects ctx ui := by
    rw [h₂.nRectsInUpdate, h₁.nRectsInUpdate]
  have hheader : w₂.nRectsInHeader = m.headerCount ctx ui w :=
    h₂.nRectsInHeader.trans h₁.nRectsInHeader
  have hend := SMsgWriter.writeFramebufferUpdateEnd_ok (w := w₂)
    (by rwa [hcount, hheader]) ctx.cp
  obtain ⟨n, outs, hos, hmarks⟩ := h₁.os
  obtain ⟨outs', hos', hmarks'⟩ := h₂.os
  have hos₂ : w₂.os = w.os ++ .framebufferUpdate n :: (outs ++ outs') := by
    rw [hos', hos, List.append_assoc, List.cons_append]
  refine ⟨_, (bind_ok hstart _).trans ((bind_ok hbody _).trans (bind_ok hend _)), ?_⟩
  by_cases hzero : w₂.nRectsInHeader = 0
  · rw [if_pos hzero]
    refine ⟨hcount, hheader, h₂.need.trans h₁.need,
      h₂.needNoDataUpdate.trans h₁.needNoDataUpdate, n, outs ++ outs' ++ [.lastRect 0], ?_, ?_⟩
    · show w₂.os ++ [.lastRect 0] = _
      rw [hos₂, List.append_assoc, List.cons_append]
    · refine iff_of_false (fun hmark => ?_) (not_not.mpr (hheader ▸ hzero))
      have hlast := hmark (.lastRect 0) (List.mem_append_right _ List.mem_cons_self)
      cases hlast
  · rw [if_neg hzero]
    exact ⟨hcount, hheader, h₂.need.trans h₁.need,
      h₂.needNoDataUpdate.trans h₁.needNoDataUpdate, n, outs ++ outs', hos₂,
      iff_of_true (unmarked_append.mpr ⟨hmarks, hmarks'⟩) (hheader ▸ hzero)⟩

theorem doUpdate_outOfSync (hs : ∀ p ∈ w.need, p.supported ctx.cp = true)
    (hheader : m.headerCount ctx ui w ≠ 0)
    (hcount : w.need.card + m.sentRects ctx ui ≠ m.headerCount ctx ui w) :
    ∃ site, m.doUpdate ctx ui w = .error (.outOfSync site) := by
  obtain ⟨w₁, hstart, h₁⟩ := @start_ok ctx m ui w hs
  obtain ⟨hroom, hfull⟩ := sends_writeBody ctx m ui w₁ h₁.room
  by_cases h : w₁.Room (m.sentRects ctx ui)
  · -- too few rectangles: the end of the update complains
    obtain ⟨w₂, hbody, h₂⟩ := hroom h
    have hend : w₂.writeFramebufferUpdateEnd ctx.cp =
        .error (.outOfSync "writeFramebufferUpdateEnd") := by
      refine if_pos ?_
      rw [h₂.nRectsInUpdate, h₂.nRectsInHeader, h₁.nRectsInUpdate, h₁.nRectsInHeader]
      exact ⟨hcount, hheader⟩
    exact ⟨_, (bind_ok hstart _).trans ((bind_ok hbody _).trans (bind_error hend _))⟩
  · -- too many: one of the parts does
    obtain ⟨site, hsite⟩ := hfull h
    exact ⟨site, (bind_ok hstart _).trans (bind_error hsite _)⟩

theorem doUpdate_refused {p : PseudoRect} (hp : p ∈ w.need)
    (hs : p.supported ctx.cp = false) :
    ∃ msg, m.doUpdate ctx ui w = .error (.refused msg) := by
  obtain ⟨msg, hmsg⟩ :=
    SMsgWriter.writeFramebufferUpdateStart_refused hs hp (m.nRects ctx ui)
  exact ⟨msg, bind_error hmsg _⟩

/-- Whatever succeeds ends in that state. -/
theorem updated_of_doUpdate {m' : EncodeManager} {w' : SMsgWriter}
    (h : m.doUpdate ctx ui w = .ok (m', w')) : m.Updated ctx ui w w' := by
  have hok : ∀ w'', m.doUpdate ctx ui w =
      .ok (m.detect ctx (outsideCursor ctx ui.changed), w'') → w'' = w' := by
    intro w'' hw''
    exact (Prod.mk.inj (Except.ok.inj (hw''.symm.trans h))).2
  by_cases hs : ∀ p ∈ w.need, p.supported ctx.cp = true
  · by_cases hcount : m.headerCount ctx ui w = 0 ∨
        w.need.card + m.sentRects ctx ui = m.headerCount ctx ui w
    · obtain ⟨w'', hw'', hupdated⟩ := doUpdate_ok hs hcount
      exact hok w'' hw'' ▸ hupdated
    · obtain ⟨hzero, hcount⟩ := not_or.mp hcount
      obtain ⟨site, hsite⟩ := doUpdate_outOfSync hs hzero hcount
      cases hsite.symm.trans h
  · obtain ⟨p, hp, hrefused⟩ : ∃ p ∈ w.need, p.supported ctx.cp = false := by
      simpa using hs
    obtain ⟨msg, hmsg⟩ := doUpdate_refused hp hrefused
    cases hmsg.symm.trans h

end Outcome

end EncodeManager

/-! ## Announced equals written -/

/-- The number of rectangles in the header is the number that was written, no
exception is about it, and no marker replaces it. -/
def CountKept (w : SMsgWriter) : Except WriterError (EncodeManager × SMsgWriter) → Prop
  | .error (.refused _) => True
  | .error (.outOfSync _) => False
  | .ok (_, w') => w'.nRectsInUpdate = w'.nRectsInHeader ∧
      ∃ n outs, w'.os = w.os ++ .framebufferUpdate n :: outs ∧ Unmarked outs

namespace EncodeManager

/-- The mean share of the screen that changes, with the oldest share replaced by that
of this frame. -/
def meanShare (ctx : EncodeContext) (m : EncodeManager) (changed : Region) : ℕ :=
  let samples := ctx.videoTime * ctx.frameRate
  let share := areaPercentage ctx.pbRect (changed.getRects true true) % 256
  ((List.range samples).map (Function.update m.areaPercentages m.areaCur share)).sum / samples

/-- Video has been detected, needs no statistics, or shows in those with this frame. -/
def VideoShows (ctx : EncodeContext) (m : EncodeManager) (changed : Region) : Prop :=
  m.videoDetected = true ∨ ctx.videoTime = 0 ∨ ctx.videoArea < meanShare ctx m changed

instance (ctx : EncodeContext) (m : EncodeManager) (changed : Region) :
    Decidable (VideoShows ctx m changed) := inferInstanceAs (Decidable (_ ∨ _ ∨ _))

/-- The whole screen, as legacy video mode sends it, is cut into tiles as the changed
region is: one rectangle that is not split, as before, or the screen itself. -/
def WholeScreen (ctx : EncodeContext) (m : EncodeManager) (changed : Region) : Prop :=
  ∃ r, changed.getRects true true = [r] ∧
    if webpSupported ctx.cp then r = ctx.pbRect else m.videoDetected = true

/-- The update is sent as tiles of the changed region, whether or not video shows. -/
structure Tiled (ctx : EncodeContext) (m : EncodeManager) (ui : UpdateInfo) : Prop where
  frames : videoFrames ctx (outsideCursor ctx ui.changed) = none
  video : VideoShows ctx m (outsideCursor ctx ui.changed) → ctx.videoModeAvailable = true

/-- Nothing of an update is left out, and video takes nothing's place: no screen is sent
as a video frame, what video does to the tiles does not matter, and a configured
watermark is due. -/
structure Foreseen (ctx : EncodeContext) (m : EncodeManager) (ui : UpdateInfo) : Prop where
  frames : videoFrames ctx (outsideCursor ctx ui.changed) = none
  video : VideoShows ctx m (outsideCursor ctx ui.changed) →
    cursorRegion ctx ui.changed = ∅ ∧
      (ctx.videoModeAvailable = true ∨ WholeScreen ctx m (outsideCursor ctx ui.changed))
  watermark : ctx.watermarkData = true → ctx.sendWatermark = true

/-- Without LastRect the statistics are over the changed region as it is. -/
theorem videoDetected_detect_iff {ctx : EncodeContext} {changed : Region}
    (hlast : ctx.cp.supportsLastRect = false) (hframes : videoFrames ctx changed = none)
    (m : EncodeManager) :
    (m.detect ctx changed).videoDetected = true ↔ VideoShows ctx m changed := by
  have hremaining : remaining ctx changed = changed := by
    simp [remaining, hframes, solidPart, hlast]
  unfold detect updateVideoStats VideoShows meanShare
  rw [hremaining]
  split
  · next hzero => exact iff_of_true rfl (Or.inr (Or.inl hzero))
  · next hzero => simp [hzero]

/-- Detection only ever sets. -/
theorem videoDetected_detect (ctx : EncodeContext) (changed : Region) {m : EncodeManager}
    (h : m.videoDetected = true) : (m.detect ctx changed).videoDetected = true := by
  unfold detect updateVideoStats
  split
  · rfl
  · exact Bool.or_eq_true_iff.mpr (Or.inl h)

/-- A watermark that is announced has to be sent, and nothing else may be missing. -/
theorem watermark_iff (data send : Bool) (k : ℕ) :
    (if data && send then 1 else 0) = k + (if data then 1 else 0) ↔
      k = 0 ∧ (data = true → send = true) := by
  cases data <;> cases send <;> simp [eq_comm]

section Compare

variable {ctx : EncodeContext} {m : EncodeManager}

/-- Outside legacy video mode the tiles are those that were counted. -/
theorem mainCount_eq {changed : Region} (region : Region)
    (h : (m.detect ctx changed).legacyVideo ctx = false) :
    (m.detect ctx changed).mainCount ctx region = m.computeNumRects ctx region := by
  have hold : m.legacyVideo ctx = false := by
    unfold legacyVideo at h ⊢
    cases hvideo : m.videoDetected with
    | false => rfl
    | true => rwa [videoDetected_detect ctx changed hvideo] at h
  unfold mainCount
  rw [if_neg (by simp [h])]
  exact computeNumRects_congr ctx (h.trans hold.symm) region

/-- What is announced, and what is sent if no frames are. -/
theorem nRects_eq {ui : UpdateInfo} (hlast : ctx.cp.supportsLastRect = false) :
    m.nRects ctx ui = ui.copied.numRects + ui.copypassed.length +
      m.computeNumRects ctx (outsideCursor ctx ui.changed) +
      m.computeNumRects ctx (cursorRegion ctx ui.changed) +
      (if ctx.watermarkData then 1 else 0) := if_neg (by simp [hlast])

theorem sentRects_eq {ui : UpdateInfo} (hlast : ctx.cp.supportsLastRect = false)
    (hframes : videoFrames ctx (outsideCursor ctx ui.changed) = none) :
    m.sentRects ctx ui = ui.copied.numRects + (ui.copypassed.length +
      ((m.detect ctx (outsideCursor ctx ui.changed)).mainCount ctx
          (outsideCursor ctx ui.changed) +
        (if !(m.detect ctx (outsideCursor ctx ui.changed)).videoDetected then
          (m.detect ctx (outsideCursor ctx ui.changed)).mainCount ctx
            (cursorRegion ctx ui.changed) else 0) +
        if ctx.watermarkData && ctx.sendWatermark then 1 else 0)) := by
  have hsolid : solidPart ctx (outsideCursor ctx ui.changed) = [] := by simp [solidPart, hlast]
  unfold sentRects pixelCount remaining
  rw [hframes]
  dsimp only
  rw [hsolid, List.length_nil, zero_add]
  rfl

/-- Where the changed region is sent as tiles, only the cursor and the watermark can be
missing. -/
theorem sentRects_eq_iff {ui : UpdateInfo} (hlast : ctx.cp.supportsLastRect = false)
    (htiled : m.Tiled ctx ui) : m.sentRects ctx ui = m.nRects ctx ui ↔ m.Foreseen ctx ui := by
  rw [nRects_eq hlast, sentRects_eq hlast htiled.frames]
  have hdetect := videoDetected_detect_iff hlast htiled.frames m
  by_cases hshows : VideoShows ctx m (outsideCursor ctx ui.changed)
  · -- the cursor is announced but not sent
    have havailable := htiled.video hshows
    have hdetected := hdetect.mpr hshows
    have hlegacy : (m.detect ctx (outsideCursor ctx ui.changed)).legacyVideo ctx = false := by
      simp [legacyVideo, havailable]
    have hforeseen : m.Foreseen ctx ui ↔
        m.computeNumRects ctx (cursorRegion ctx ui.changed) = 0 ∧
          (ctx.watermarkData = true → ctx.sendWatermark = true) := by
      rw [computeNumRects_eq_zero]
      exact ⟨fun h => ⟨(h.video hshows).1, h.watermark⟩,
        fun h => ⟨htiled.frames, fun _ => ⟨h.1, Or.inl havailable⟩, h.2⟩⟩
    rw [mainCount_eq _ hlegacy, hdetected, hforeseen, ← watermark_iff]
    simp only [Bool.not_true, Bool.false_eq_true, if_false]
    omega
  · have hdetected := Bool.eq_false_iff.mpr (mt hdetect.mp hshows)
    have hlegacy : (m.detect ctx (outsideCursor ctx ui.changed)).legacyVideo ctx = false := by
      simp [legacyVideo, hdetected]
    have hforeseen : m.Foreseen ctx ui ↔
        0 = 0 ∧ (ctx.watermarkData = true → ctx.sendWatermark = true) :=
      ⟨fun h => ⟨rfl, h.watermark⟩,
        fun h => ⟨htiled.frames, fun hvideo => absurd hvideo hshows, h.2⟩⟩
    rw [mainCount_eq _ hlegacy, mainCount_eq _ hlegacy, hdetected, hforeseen, ← watermark_iff]
    simp only [Bool.not_false, if_true]
    omega

/-- In legacy video mode the whole screen stands for what was announced. -/
theorem mainCount_wholeScreen {changed : Region}
    (hlegacy : (m.detect ctx changed).legacyVideo ctx = true) (h : WholeScreen ctx m changed) :
    (m.detect ctx changed).mainCount ctx changed = m.computeNumRects ctx changed := by
  obtain ⟨r, hrects, hr⟩ := h
  unfold mainCount computeNumRects
  rw [if_pos hlegacy, hrects, List.map_singleton, List.sum_singleton]
  cases hwebp : webpSupported ctx.cp with
  | true =>
    rw [hwebp, if_pos rfl] at hr
    have hmem : r ∈ changed.getRects true true := hrects ▸ List.mem_singleton_self r
    rw [← hr, length_subRects _ _ (Region.getRects_nonempty hmem)]
    unfold numSubRects unsplit
    rw [hwebp, Bool.not_true, Bool.and_false, Bool.and_false]
  | false =>
    rw [hwebp, if_neg Bool.false_ne_true] at hr
    have hunsplit : ∀ s, (m.detect ctx changed).unsplit ctx s = true := fun s => by
      unfold unsplit
      rw [hlegacy, hwebp, Bool.not_false, Bool.and_true, Bool.or_true]
    have hbefore : m.unsplit ctx r = true := by
      have hlegacy' : m.legacyVideo ctx = true := by
        unfold legacyVideo at hlegacy ⊢
        rw [hr, Bool.true_and]
        exact (Bool.and_eq_true_iff.mp hlegacy).2
      unfold unsplit
      rw [hlegacy', hwebp, Bool.not_false, Bool.and_true, Bool.or_true]
    unfold subRects numSubRects
    rw [if_pos (hunsplit _), if_pos hbefore]
    rfl

/-- **What is foreseen is sent.** -/
theorem Foreseen.sentRects_eq {ui : UpdateInfo} (hlast : ctx.cp.supportsLastRect = false)
    (h : m.Foreseen ctx ui) : m.sentRects ctx ui = m.nRects ctx ui := by
  by_cases htiled : m.Tiled ctx ui
  · exact (sentRects_eq_iff hlast htiled).mpr h
  -- the rest is legacy video mode, in which the cursor is left out
  have hshows : VideoShows ctx m (outsideCursor ctx ui.changed) := by
    by_contra hshows
    exact htiled ⟨h.frames, fun hvideo => absurd hvideo hshows⟩
  have havailable : ctx.videoModeAvailable = false :=
    Bool.eq_false_iff.mpr fun havailable => htiled ⟨h.frames, fun _ => havailable⟩
  have hdetected := (videoDetected_detect_iff hlast h.frames m).mpr hshows
  have hlegacy : (m.detect ctx (outsideCursor ctx ui.changed)).legacyVideo ctx = true := by
    simp [legacyVideo, hdetected, havailable]
  obtain ⟨hcursor, hvideo⟩ := h.video hshows
  have hwhole := hvideo.resolve_left (by simp [havailable])
  have hwatermark := (watermark_iff ctx.watermarkData ctx.sendWatermark 0).mpr ⟨rfl, h.watermark⟩
  rw [nRects_eq hlast, EncodeManager.sentRects_eq hlast h.frames, hdetected,
    mainCount_wholeScreen hlegacy hwhole, (computeNumRects_eq_zero ctx m).mpr hcursor]
  simp only [Bool.not_true, Bool.false_eq_true, if_false]
  omega

/-- The header has a count unless the number of rectangles is 0 or 0xFFFF. -/
theorem headerCount_ne_zero {ui : UpdateInfo} {w : SMsgWriter} :
    m.headerCount ctx ui w ≠ 0 ↔ m.nRects ctx ui ≠ 0xFFFF ∧
      m.nRects ctx ui + w.need.card ≠ 0 ∧ m.nRects ctx ui + w.need.card ≠ 0xFFFF := by
  unfold headerCount SMsgWriter.startUpdate SMsgWriter.announced
  dsimp only
  split_ifs <;> omega

theorem headerCount_eq {ui : UpdateInfo} {w : SMsgWriter} (h : m.headerCount ctx ui w ≠ 0) :
    m.headerCount ctx ui w = m.nRects ctx ui + w.need.card := by
  obtain ⟨hmax, -, htotal⟩ := headerCount_ne_zero.mp h
  unfold headerCount SMsgWriter.startUpdate SMsgWriter.announced
  dsimp only
  split_ifs
  omega

theorem Updated.countKept_iff {ui : UpdateInfo} {w w' : SMsgWriter} {m' : EncodeManager}
    (h : m.Updated ctx ui w w') : CountKept w (.ok (m', w')) ↔
      w'.nRectsInUpdate = w'.nRectsInHeader ∧ m.headerCount ctx ui w ≠ 0 := by
  obtain ⟨n, outs, hos, hmarks⟩ := h.os
  refine and_congr_right fun _ => ⟨?_, fun hzero => ⟨n, outs, hos, hmarks.mpr hzero⟩⟩
  rintro ⟨n', outs', hos', hmarks'⟩
  have hsame := List.append_cancel_left (hos'.symm.trans hos)
  rw [(List.cons.inj hsame).2] at hmarks'
  exact hmarks.mp hmarks'

/-- Some pending pseudo-rectangle is refused, so that nothing is counted; or all that
is sent is foreseen, and the number is not one of the two that stand for an unknown
number. -/
def Countable (ctx : EncodeContext) (m : EncodeManager) (ui : UpdateInfo) (w : SMsgWriter) :
    Prop :=
  (∃ p ∈ w.need, p.supported ctx.cp = false) ∨
    m.Foreseen ctx ui ∧ m.nRects ctx ui ≠ 0xFFFF ∧
      m.nRects ctx ui + w.need.card ≠ 0 ∧ m.nRects ctx ui + w.need.card ≠ 0xFFFF

/-- An update that is not refused keeps its count if the parts send what was announced,
under a header with a count. -/
theorem countKept_iff_sent {ui : UpdateInfo} {w : SMsgWriter}
    (hs : ∀ p ∈ w.need, p.supported ctx.cp = true) :
    CountKept w (m.doUpdate ctx ui w) ↔
      m.sentRects ctx ui = m.nRects ctx ui ∧ m.headerCount ctx ui w ≠ 0 := by
  by_cases hzero : m.headerCount ctx ui w = 0
  · obtain ⟨w', hw', hupdated⟩ := doUpdate_ok hs (Or.inl hzero)
    rw [hw', hupdated.countKept_iff]
    tauto
  · have hheader := headerCount_eq hzero
    by_cases hcount : w.need.card + m.sentRects ctx ui = m.headerCount ctx ui w
    · obtain ⟨w', hw', hupdated⟩ := doUpdate_ok hs (Or.inr hcount)
      rw [hw', hupdated.countKept_iff, hupdated.nRectsInUpdate, hupdated.nRectsInHeader]
      refine and_congr_left fun _ => iff_of_true hcount ?_
      omega
    · obtain ⟨site, hsite⟩ := doUpdate_outOfSync hs hzero hcount
      rw [hsite]
      refine iff_of_false id fun h => hcount ?_
      omega

end Compare

end EncodeManager

/-- A client with one changed pixel, and with or without a watermark. -/
def onePixelContext (watermarkData sendWatermark : Bool) : EncodeContext where
  cp := {}
  pbRect := ⟨(0, 0), (4, 4)⟩
  renderedCursor := none
  videoModeAvailable := false
  encoderAvailable := false
  watermarkData := watermarkData
  sendWatermark := sendWatermark
  videoTime := 1
  frameRate := 1
  videoArea := 45
  solidRects := fun _ => []
  screenFrames := fun _ => none
  encodingOf := fun _ => encodingRaw

def onePixelUpdate : UpdateInfo := ⟨{(0, 0)}, ∅, 0, []⟩

/-- The cursor is rendered, the watermark is due and the client takes names. -/
def cursorContext : EncodeContext :=
  { onePixelContext true true with
    cp := { supportsDesktopRename := true }
    renderedCursor := some ⟨(2, 2), (4, 4)⟩ }

def cursorUpdate : UpdateInfo :=
  ⟨{(0, 0), (3, 3)}, {(1, 0)}, (1, 0), [⟨⟨(0, 1), (1, 2)⟩, 0, 0⟩]⟩

end KasmVNC.Rfb
