import KasmVNC.Rfb.DataUpdate

/-!
# What a data update hands over

`writeDataUpdate` is a pipeline with many ways through it. What it hands to the encode
manager, and what is left of the tracker, can be said at once: the tracker takes in what the
cursor adds and drops the copies that have changed, the update is the part of it that was
requested, and afterwards that part is forgotten.
-/

namespace KasmVNC.Rfb

open KasmVNC.Lib

namespace SimpleUpdateTracker

/-- All pixels the tracker knows something about. -/
def touched (t : SimpleUpdateTracker) : Region := t.changed ∪ t.copied

theorem touched_enableCopyrect (t : SimpleUpdateTracker) (enable : Bool) :
    (t.enableCopyrect enable).touched = t.touched := by
  unfold enableCopyrect touched addChanged
  split
  · exact Finset.union_empty _
  · rfl

theorem touched_addChanged (t : SimpleUpdateTracker) (region : Region) :
    (t.addChanged region).touched = t.touched ∪ region := by
  ext p
  simp only [touched, addChanged, Finset.mem_union]
  tauto

theorem touched_getUpdateInfo (t : SimpleUpdateTracker) (clip : Region) :
    (t.getUpdateInfo clip).1.touched = t.touched := by
  ext p
  simp only [touched, Finset.mem_union, getUpdateInfo_changed, mem_getUpdateInfo_copied]
  tauto

/-- Take in a changed region, and forget the copies that have changed. -/
def absorb (t : SimpleUpdateTracker) (region : Region) : SimpleUpdateTracker :=
  { t with changed := t.changed ∪ region, copied := t.copied \ (t.changed ∪ region) }

variable {t : SimpleUpdateTracker}

theorem touched_absorb (region : Region) : (t.absorb region).touched = t.touched ∪ region := by
  ext p
  simp only [touched, absorb, Finset.mem_union, Finset.mem_sdiff]
  tauto

@[simp] theorem absorb_copied (region : Region) :
    (t.absorb region).copied = t.copied \ (t.changed ∪ region) := rfl

theorem absorb_absorb (r s : Region) : (t.absorb r).absorb s = t.absorb (r ∪ s) := by
  unfold absorb
  dsimp only
  rw [← Finset.union_assoc, sdiff_sdiff_left, Finset.sup_eq_union]
  congr 1
  have hsub : t.changed ∪ r ⊆ t.changed ∪ r ∪ s := Finset.subset_union_left
  rw [Finset.union_eq_right.mpr hsub]

theorem absorb_addChanged (region : Region) :
    (t.addChanged region).absorb ∅ = t.absorb region := by
  unfold absorb addChanged
  rw [Finset.union_empty]

theorem getUpdateInfo_eq_absorb (clip : Region) : (t.getUpdateInfo clip).1 = t.absorb ∅ := by
  unfold absorb getUpdateInfo
  rw [Finset.union_empty]

/-- The update information of a tracker that has forgotten them. -/
theorem info_eq_absorb (clip : Region) : (t.getUpdateInfo clip).2 =
    ⟨(t.absorb ∅).changed ∩ clip, (t.absorb ∅).copied ∩ clip, t.copyDelta, []⟩ := by
  unfold absorb getUpdateInfo
  rw [Finset.union_empty]

end SimpleUpdateTracker

/-- All pixels of an update except those of its copy-pass rectangles. -/
def UpdateInfo.touched (ui : UpdateInfo) : Region := ui.changed ∪ ui.copied

theorem UpdateInfo.touched_getUpdateInfo (t : SimpleUpdateTracker) (clip : Region) :
    (t.getUpdateInfo clip).2.touched = t.touched ∩ clip := by
  ext p
  simp only [UpdateInfo.touched, SimpleUpdateTracker.touched, Finset.mem_union,
    Finset.mem_inter, SimpleUpdateTracker.mem_info_changed,
    SimpleUpdateTracker.mem_info_copied]
  tauto

theorem UpdateInfo.isEmpty_iff (ui : UpdateInfo) :
    ui.isEmpty = true ↔ ui.touched = ∅ ∧ ui.copypassed = [] := by
  simp only [isEmpty, touched, Bool.and_eq_true, decide_eq_true_iff, Finset.union_eq_empty,
    List.isEmpty_iff]
  tauto

namespace ClientUpdates

/-- The copy of a rendered cursor that has to be repainted. -/
def bogusCursor (ctx : UpdateContext) (c : ClientUpdates) : Region :=
  let ui := ((c.updates.enableCopyrect ctx.useCopyRect).getUpdateInfo c.request).2
  let bogus := c.damagedCursorRegion.translate ui.copyDelta ∩ Region.ofRect ctx.pbRect
  if ui.copied ∩ bogus ≠ ∅ then bogus else ∅

/-- Everything the client has not been told yet. -/
def outstanding (ctx : UpdateContext) (c : ClientUpdates) : Region :=
  c.updates.touched ∪ c.bogusCursor ctx ∪
    (if c.removeRenderedCursor then c.damagedCursorRegion else ∅) ∪
    (if c.updateRenderedCursor then Region.ofRect ctx.cursorRect else ∅)

/-- The part of the request that a lossless refresh may use. -/
def settled (ctx : UpdateContext) (c : ClientUpdates) : Region :=
  if ctx.pending = ∅ then c.request
  else ((c.request \ ctx.pending) \ c.outstanding ctx) \ copypassDest c.copypassed

/-! ## Collecting -/

/-- Once its copies are settled, the tracker is the old one with the region, and no part of
collecting changes more than that and the flags of the cursor. -/
structure Settles (region : Region) (c c' : ClientUpdates) : Prop where
  updates : c'.updates.absorb ∅ = c.updates.absorb region
  copypassed : c'.copypassed = c.copypassed
  requested : c'.requested = c.requested
  udpFramesSinceFull : c'.udpFramesSinceFull = c.udpFramesSinceFull
  continuousUpdates : c'.continuousUpdates = c.continuousUpdates

theorem settles_refl (c : ClientUpdates) : c.Settles ∅ c := ⟨rfl, rfl, rfl, rfl, rfl⟩

theorem Settles.trans {r s : Region} {c c' c'' : ClientUpdates} (h : c.Settles r c')
    (h' : c'.Settles s c'') : c.Settles (r ∪ s) c'' := by
  refine ⟨?_, h'.copypassed.trans h.copypassed, h'.requested.trans h.requested,
    h'.udpFramesSinceFull.trans h.udpFramesSinceFull,
    h'.continuousUpdates.trans h.continuousUpdates⟩
  rw [h'.updates, ← SimpleUpdateTracker.absorb_absorb, ← h.updates,
    SimpleUpdateTracker.absorb_absorb, Finset.empty_union]

theorem settles_addChanged (c : ClientUpdates) (region : Region) :
    c.Settles region (c.addChanged region) :=
  ⟨SimpleUpdateTracker.absorb_addChanged region, rfl, rfl, rfl, rfl⟩

/-- What is taken then is the update information of that tracker. -/
theorem Settles.getUpdateInfo {region : Region} {c c' : ClientUpdates} (h : c.Settles region c')
    (req : Region) :
    let t := c.updates.absorb region
    c.Settles region (c'.getUpdateInfo req).1 ∧ (c'.getUpdateInfo req).1.updates = t ∧
      (c'.getUpdateInfo req).2 = ⟨t.changed ∩ req, t.copied ∩ req, t.copyDelta, []⟩ := by
  have htaken : (c'.getUpdateInfo req).1.updates = c'.updates.absorb ∅ :=
    SimpleUpdateTracker.getUpdateInfo_eq_absorb req
  have hgiven : (c'.getUpdateInfo req).2 =
      ⟨(c'.updates.absorb ∅).changed ∩ req, (c'.updates.absorb ∅).copied ∩ req,
        (c'.updates.absorb ∅).copyDelta, []⟩ := SimpleUpdateTracker.info_eq_absorb req
  rw [h.updates] at htaken hgiven
  refine ⟨⟨?_, h.copypassed, h.requested, h.udpFramesSinceFull, h.continuousUpdates⟩, htaken,
    hgiven⟩
  rw [htaken, SimpleUpdateTracker.absorb_absorb, Finset.union_empty]

section Collect

variable (ctx : UpdateContext) (c : ClientUpdates)

theorem settles_repaintBogusCursor (ui : UpdateInfo) :
    let bogus := c.damagedCursorRegion.translate ui.copyDelta ∩ Region.ofRect ctx.pbRect
    let r := c.repaintBogusCursor ctx ui
    c.Settles (if ui.copied ∩ bogus ≠ ∅ then bogus else ∅) r.1 ∧
      (r.2 = false → ¬ ui.copied ∩ bogus ≠ ∅ ∧ r.1 = c) ∧
      r.1.damagedCursorRegion = c.damagedCursorRegion ∧
      r.1.removeRenderedCursor = c.removeRenderedCursor ∧
      r.1.updateRenderedCursor = c.updateRenderedCursor := by
  intro bogus r
  have hr : r = if ui.copied ∩ bogus ≠ ∅ then (c.addChanged bogus, true) else (c, false) := by
    by_cases hover : ui.copied ∩ bogus ≠ ∅
    · have hcopied : ui.copied ≠ ∅ := fun h => hover (by rw [h, Finset.empty_inter])
      have hdamaged : c.damagedCursorRegion ≠ ∅ := by
        intro h
        refine hover ?_
        simp [bogus, h, Region.translate]
      rw [if_pos hover]
      exact (if_pos ⟨hcopied, hdamaged⟩).trans (if_pos hover)
    · rw [if_neg hover]
      by_cases hboth : ui.copied ≠ ∅ ∧ c.damagedCursorRegion ≠ ∅
      · exact (if_pos hboth).trans (if_neg hover)
      · exact if_neg hboth
  rw [hr]
  by_cases hover : ui.copied ∩ bogus ≠ ∅
  · rw [if_pos hover, if_pos hover]
    exact ⟨settles_addChanged c bogus, fun h => absurd h Bool.noConfusion, rfl, rfl, rfl⟩
  · rw [if_neg hover, if_neg hover]
    exact ⟨settles_refl c, fun _ => ⟨hover, rfl⟩, rfl, rfl, rfl⟩

theorem settles_removeCursor :
    c.Settles (if c.removeRenderedCursor then c.damagedCursorRegion else ∅) c.removeCursor.1 ∧
      (c.removeCursor.2 = false → c.removeRenderedCursor = false ∧ c.removeCursor.1 = c) ∧
      c.removeCursor.1.updateRenderedCursor = c.updateRenderedCursor := by
  unfold removeCursor
  cases hremove : c.removeRenderedCursor with
  | false => exact ⟨settles_refl c, fun _ => ⟨rfl, rfl⟩, rfl⟩
  | true =>
    have h := settles_addChanged c c.damagedCursorRegion
    exact ⟨⟨h.updates, rfl, rfl, rfl, rfl⟩, (fun h => nomatch h), rfl⟩

theorem settles_updateCursor :
    c.Settles (if c.updateRenderedCursor then Region.ofRect ctx.cursorRect else ∅)
        (c.updateCursor ctx).1 ∧
      ((c.updateCursor ctx).2 = false →
        c.updateRenderedCursor = false ∧ (c.updateCursor ctx).1 = c) := by
  unfold updateCursor
  cases hupdate : c.updateRenderedCursor with
  | false => exact ⟨settles_refl c, fun _ => ⟨rfl, rfl⟩⟩
  | true =>
    have h := settles_addChanged c (Region.ofRect ctx.cursorRect)
    exact ⟨⟨h.updates, rfl, rfl, rfl, rfl⟩, fun h => nomatch h⟩

/-- Everything `collect` adds. -/
def added (ui : UpdateInfo) (c : ClientUpdates) : Region :=
  let bogus := c.damagedCursorRegion.translate ui.copyDelta ∩ Region.ofRect ctx.pbRect
  (if ui.copied ∩ bogus ≠ ∅ then bogus else ∅) ∪
    (if c.removeRenderedCursor then c.damagedCursorRegion else ∅) ∪
    (if c.updateRenderedCursor then Region.ofRect ctx.cursorRect else ∅)

/-- The tracker takes in all that is added, and the information is what it has then. -/
theorem collect_settles (req : Region) :
    let region := c.added ctx (c.updates.getUpdateInfo req).2
    let t := c.updates.absorb region
    c.Settles region (c.collect ctx req).1 ∧ (c.collect ctx req).1.updates = t ∧
      (c.collect ctx req).2 = ⟨t.changed ∩ req, t.copied ∩ req, t.copyDelta, []⟩ := by
  obtain ⟨h₁, hfirst, hui⟩ := (settles_refl c).getUpdateInfo req
  have hdamaged₁ : (c.getUpdateInfo req).1.damagedCursorRegion = c.damagedCursorRegion := rfl
  have hremove₁ : (c.getUpdateInfo req).1.removeRenderedCursor = c.removeRenderedCursor := rfl
  have hupdate₁ : (c.getUpdateInfo req).1.updateRenderedCursor = c.updateRenderedCursor := rfl
  have hinfo : (c.updates.getUpdateInfo req).2 = (c.getUpdateInfo req).2 := rfl
  rw [hinfo]
  unfold collect
  clear hinfo
  generalize c.getUpdateInfo req = info at *
  obtain ⟨c₁, ui⟩ := info
  dsimp only at *
  obtain ⟨h₂, hsame₂, hdamaged₂, hremove₂, hupdate₂⟩ := settles_repaintBogusCursor ctx c₁ ui
  generalize c₁.repaintBogusCursor ctx ui = repainted at *
  obtain ⟨c₂, bogus⟩ := repainted
  dsimp only at *
  obtain ⟨h₃, hsame₃, hupdate₃⟩ := settles_removeCursor c₂
  generalize c₂.removeCursor = removal at *
  obtain ⟨c₃, removed⟩ := removal
  dsimp only at *
  obtain ⟨h₄, hsame₄⟩ := settles_updateCursor ctx c₃
  generalize c₃.updateCursor ctx = update at *
  obtain ⟨c₄, updated⟩ := update
  dsimp only at *
  rw [hdamaged₁] at h₂ hsame₂ hdamaged₂
  rw [hremove₁] at hremove₂
  rw [hupdate₁] at hupdate₂
  have hall : c.Settles (c.added ctx ui) c₄ := by
    have h := h₁.trans (h₂.trans (h₃.trans h₄))
    rw [hdamaged₂, hremove₂, hupdate₃, hupdate₂, Finset.empty_union,
      ← Finset.union_assoc] at h
    exact h
  by_cases hagain : (bogus || removed || updated) = true
  · rw [if_pos hagain]
    exact hall.getUpdateInfo req
  · -- no part has added anything
    rw [if_neg hagain]
    obtain ⟨⟨hb, hr⟩, hu⟩ : (bogus = false ∧ removed = false) ∧ updated = false := by
      simpa only [Bool.or_eq_true, not_or, Bool.not_eq_true] using hagain
    have hremoved : c.removeRenderedCursor = false := hremove₂.symm.trans (hsame₃ hr).1
    have hupdated : c.updateRenderedCursor = false :=
      hupdate₂.symm.trans (hupdate₃.symm.trans (hsame₄ hu).1)
    have hnone : c.added ctx ui = ∅ := by
      unfold added
      dsimp only
      rw [if_neg (hsame₂ hb).1, hremoved, hupdated]
      rfl
    refine ⟨hall, ?_⟩
    rw [hnone]
    obtain rfl : c₄ = c₁ := ((hsame₄ hu).2.trans (hsame₃ hr).2).trans (hsame₂ hb).2
    exact ⟨hfirst, hui⟩

end Collect

/-! ## The whole pipeline -/

section Handed

variable (ctx : UpdateContext) (c : ClientUpdates)

/-- The tracker when the information is taken from it. -/
def taken : SimpleUpdateTracker :=
  let c : ClientUpdates := { c with updates := c.updates.enableCopyrect ctx.useCopyRect }
  c.updates.absorb (c.added ctx (c.updates.getUpdateInfo c.request).2)

/-- Where the cursor is drawn over the framebuffer. -/
def cursorArea (ctx : UpdateContext) : Region :=
  if ctx.needRenderedCursor then Region.ofRect ctx.cursorRect else ∅

/-- What is sent because a full frame is due. -/
def fullFrameArea : Region :=
  if countsUdpFrames ctx ∧ c.udpFramesSinceFull ≥ ctx.udpFullFrameFrequency then
    Region.ofRect ctx.screen
  else ∅

/-- The update that is handed to the encode manager, if it is not empty. -/
def handed : UpdateInfo :=
  let t := c.taken ctx
  if ctx.pending ≠ ∅ then ⟨c.fullFrameArea ctx, ∅, t.copyDelta, []⟩
  else
    ⟨t.changed ∩ c.request ∪ t.copied ∩ c.request ∩ cursorArea ctx ∪ c.fullFrameArea ctx,
      (t.copied ∩ c.request) \ cursorArea ctx, t.copyDelta, c.copypassed⟩

variable {ctx c}

/-- What the tracker knows and what the cursor adds is what is outstanding. -/
theorem taken_touched : (c.taken ctx).touched = c.outstanding ctx := by
  have htouched : (c.updates.enableCopyrect ctx.useCopyRect).touched = c.updates.touched :=
    SimpleUpdateTracker.touched_enableCopyrect _ _
  unfold taken
  rw [SimpleUpdateTracker.touched_absorb, outstanding, added, ← Finset.union_assoc,
    ← Finset.union_assoc]
  dsimp only
  rw [htouched]
  rfl

/-- While there are pending changes only the settled part is left of the request. -/
theorem defer_eq {copypassed : List CopyPassRect} {req touched : Region} {ui : UpdateInfo}
    (htouched : ui.touched = touched ∩ req) :
    (defer ctx copypassed req ui).1 = (if ctx.pending = ∅ then req
        else ((req \ ctx.pending) \ touched) \ copypassDest copypassed) ∧
      (defer ctx copypassed req ui).2 =
        if ctx.pending ≠ ∅ then ⟨∅, ∅, ui.copyDelta, ui.copypassed⟩ else ui := by
  unfold defer
  by_cases hpending : ctx.pending = ∅
  · simp [hpending]
  · rw [if_pos hpending, if_neg hpending, if_pos hpending]
    refine ⟨?_, rfl⟩
    ext p
    have hp : p ∈ ui.changed ∨ p ∈ ui.copied ↔ p ∈ touched ∧ p ∈ req := by
      rw [← Finset.mem_union, ← Finset.mem_inter]
      exact Finset.ext_iff.mp htouched p
    simp only [Finset.mem_sdiff]
    tauto

/-- Rendering the cursor turns copies into changes. -/
theorem renderCursor_eq {ui : UpdateInfo} :
    (c.renderCursor ctx ui).2 =
        ⟨ui.changed ∪ ui.copied ∩ cursorArea ctx, ui.copied \ cursorArea ctx, ui.copyDelta,
          ui.copypassed⟩ ∧
      ∃ update remove damaged, (c.renderCursor ctx ui).1 =
        { c with updateRenderedCursor := update, removeRenderedCursor := remove,
                 damagedCursorRegion := damaged } := by
  unfold renderCursor cursorArea
  by_cases hneed : ctx.needRenderedCursor = true
  · rw [if_pos hneed, if_pos hneed]
    dsimp only
    refine ⟨?_, _, _, _, rfl⟩
    by_cases hover : ui.copied ∩ Region.ofRect ctx.cursorRect ≠ ∅
    · rw [if_pos hover]
    · rw [if_neg hover]
      have hnone := not_not.mp hover
      rw [hnone, Finset.union_empty, Finset.sdiff_eq_self_of_disjoint
        (Finset.disjoint_iff_inter_eq_empty.mpr hnone)]
  · rw [if_neg hneed, if_neg hneed, Finset.inter_empty, Finset.union_empty, Finset.sdiff_empty]
    exact ⟨rfl, _, _, _, rfl⟩

theorem fullFrame_eq {ui : UpdateInfo} :
    (c.fullFrame ctx ui).2 = { ui with changed := ui.changed ∪ c.fullFrameArea ctx } ∧
      ∃ frames, (c.fullFrame ctx ui).1 = { c with udpFramesSinceFull := frames } := by
  unfold fullFrame fullFrameArea
  split
  · exact ⟨rfl, _, rfl⟩
  · rw [Finset.union_empty]
    exact ⟨rfl, _, rfl⟩

/-- What `send` is called with. -/
theorem writeDataUpdate_handed (hreq : c.request ≠ ∅) :
    ∃ c' : ClientUpdates, c.writeDataUpdate ctx = c'.send ctx (c.settled ctx) (c.handed ctx) ∧
      c'.updates = c.taken ctx ∧ c'.copypassed = c.copypassed ∧ c'.requested = c.requested ∧
      c'.continuousUpdates = c.continuousUpdates := by
  let c₀ : ClientUpdates := { c with updates := c.updates.enableCopyrect ctx.useCopyRect }
  have hrequest : c₀.request = c.request := rfl
  obtain ⟨hsettles, htaken, hinfo⟩ := collect_settles ctx c₀ c.request
  have hpass₁ : (c₀.collect ctx c.request).1.copypassed = c.copypassed := hsettles.copypassed
  have hreq₁ : (c₀.collect ctx c.request).1.requested = c.requested := hsettles.requested
  have hudp₁ : (c₀.collect ctx c.request).1.udpFramesSinceFull = c.udpFramesSinceFull :=
    hsettles.udpFramesSinceFull
  have hcu₁ : (c₀.collect ctx c.request).1.continuousUpdates = c.continuousUpdates :=
    hsettles.continuousUpdates
  have ht : c₀.updates.absorb (c₀.added ctx (c₀.updates.getUpdateInfo c.request).2) =
      c.taken ctx := rfl
  rw [ht] at htaken hinfo
  unfold writeDataUpdate
  dsimp only
  rw [hrequest, if_neg hreq]
  generalize c₀.collect ctx c.request = collected at *
  obtain ⟨c₁, ui₁⟩ := collected
  dsimp only at *
  have htouched : ui₁.touched = c.outstanding ctx ∩ c.request := by
    rw [← taken_touched, hinfo]
    exact (Finset.union_inter_distrib_right _ _ _).symm
  obtain ⟨hreq₂, hdeferred⟩ := @defer_eq ctx c₁.copypassed _ _ _ htouched
  have hsettled : (defer ctx c₁.copypassed c.request ui₁).1 = c.settled ctx := by
    rw [hreq₂, hpass₁]
    rfl
  generalize defer ctx c₁.copypassed c.request ui₁ = deferred at *
  obtain ⟨req₂, ui₂⟩ := deferred
  dsimp only at *
  obtain ⟨hui₃, update, remove, damaged, hc₃⟩ := @renderCursor_eq ctx c₁ ui₂
  generalize c₁.renderCursor ctx ui₂ = rendered at *
  obtain ⟨c₃, ui₃⟩ := rendered
  dsimp only at *
  have hpass₃ : c₃.copypassed = c.copypassed := hc₃ ▸ hpass₁
  have hfull : c₃.fullFrameArea ctx = c.fullFrameArea ctx := by
    rw [hc₃, fullFrameArea, fullFrameArea, hudp₁]
  obtain ⟨hui₄, frames, hc₄⟩ := @fullFrame_eq ctx c₃ (c₃.attachCopypass ctx ui₃)
  generalize c₃.fullFrame ctx (c₃.attachCopypass ctx ui₃) = full at *
  obtain ⟨c₄, ui₄⟩ := full
  dsimp only at *
  refine ⟨c₄, ?_, ?_⟩
  rotate_left
  · rw [hc₄, hc₃]
    exact ⟨htaken, hpass₁, hreq₁, hcu₁⟩
  rw [hsettled, hui₄, hfull]
  congr 1
  unfold handed attachCopypass
  rw [hpass₃, hui₃, hdeferred]
  by_cases hpending : ctx.pending ≠ ∅
  · rw [if_pos hpending, if_pos hpending, if_pos hpending]
    dsimp only
    rw [Finset.empty_union, Finset.empty_inter, Finset.empty_union, Finset.empty_sdiff, hinfo]
  · rw [if_neg hpending, if_neg hpending, if_neg hpending, hinfo]

/-- The pixels of the update: what is outstanding of the request, unless the server has pending
changes. -/
theorem handed_touched : (c.handed ctx).touched =
    (if ctx.pending = ∅ then c.outstanding ctx ∩ c.request else ∅) ∪ c.fullFrameArea ctx := by
  rw [← taken_touched]
  unfold handed
  ext p
  by_cases hpending : ctx.pending = ∅
  · rw [if_neg (not_not.mpr hpending), if_pos hpending]
    simp only [UpdateInfo.touched, SimpleUpdateTracker.touched, Finset.mem_union,
      Finset.mem_inter, Finset.mem_sdiff]
    tauto
  · rw [if_pos hpending, if_neg hpending]
    simp [UpdateInfo.touched]

/-- **What a data update does.** -/
theorem writeDataUpdate_outcome (hreq : c.request ≠ ∅) :
    ((c.handed ctx).isEmpty = false →
      (c.writeDataUpdate ctx).2 = .update (c.handed ctx) ∧
        (c.writeDataUpdate ctx).1.updates = (c.taken ctx).subtract (c.settled ctx) ∧
        (c.writeDataUpdate ctx).1.copypassed = []) ∧
    ((c.handed ctx).isEmpty = true →
      (c.writeDataUpdate ctx).1.copypassed = c.copypassed ∧
        ((c.writeDataUpdate ctx).2 = .nothing ∧
            (c.writeDataUpdate ctx).1.updates = c.taken ctx ∨
          (c.writeDataUpdate ctx).2 = .losslessRefresh (c.settled ctx) ∧
            (c.writeDataUpdate ctx).1.updates = (c.taken ctx).subtract (c.settled ctx))) := by
  obtain ⟨c', hsend, hupdates, hpass, -⟩ := @writeDataUpdate_handed ctx c hreq
  rw [hsend, ← hupdates, ← hpass]
  unfold send answered
  constructor
  · intro hsome
    rw [if_neg (by simp [hsome]), if_pos (by simp [hsome])]
    exact ⟨rfl, rfl, rfl⟩
  · intro hnone
    split
    · exact ⟨rfl, .inl ⟨rfl, rfl⟩⟩
    · rw [if_neg (by simp [hnone])]
      exact ⟨rfl, .inr ⟨rfl, rfl⟩⟩

/-- Without a request nothing happens, but that the copies may be dropped. -/
theorem writeDataUpdate_unrequested (hreq : c.request = ∅) :
    c.writeDataUpdate ctx =
      ({ c with updates := c.updates.enableCopyrect ctx.useCopyRect }, .nothing) :=
  if_pos hreq

/-- The three ways the tracker is left. -/
theorem updates_writeDataUpdate :
    (c.writeDataUpdate ctx).1.updates = c.updates.enableCopyrect ctx.useCopyRect ∨
      (c.writeDataUpdate ctx).1.updates = c.taken ctx ∨
      (c.writeDataUpdate ctx).1.updates = (c.taken ctx).subtract (c.settled ctx) := by
  by_cases hreq : c.request = ∅
  · rw [writeDataUpdate_unrequested hreq]
    exact .inl rfl
  · obtain ⟨hsome, hnone⟩ := @writeDataUpdate_outcome ctx c hreq
    cases hempty : (c.handed ctx).isEmpty with
    | false => exact .inr (.inr (hsome hempty).2.1)
    | true =>
      rcases (hnone hempty).2 with ⟨-, hupdates⟩ | ⟨-, hupdates⟩
      · exact .inr (.inl hupdates)
      · exact .inr (.inr hupdates)

end Handed

end ClientUpdates

/-! ## Copies of a client that does not want them -/

namespace SimpleUpdateTracker

/-- A tracker that is not to use copies has none. -/
def Gated (t : SimpleUpdateTracker) : Prop := t.copyEnabled = false → t.copied = ∅

variable {t : SimpleUpdateTracker}

theorem Gated.addChanged (h : t.Gated) (region : Region) : (t.addChanged region).Gated := h

theorem Gated.clear (t : SimpleUpdateTracker) : t.clear.Gated := fun _ => rfl

theorem Gated.addCopied (h : t.Gated) (dest : Region) (delta : Point) :
    (t.addCopied dest delta).Gated := by
  unfold SimpleUpdateTracker.addCopied
  by_cases hoff : (!t.copyEnabled) = true
  · rw [if_pos hoff]
    exact h
  · rw [if_neg hoff]
    have hon : t.copyEnabled = true := by simpa using hoff
    have hnever : ∀ {P : Prop}, t.copyEnabled = false → P := fun hfalse =>
      absurd (hon.symm.trans hfalse) Bool.noConfusion
    dsimp only
    split_ifs <;> exact fun hfalse => hnever hfalse

theorem Gated.enableCopyrect (h : t.Gated) (enable : Bool) : (t.enableCopyrect enable).Gated := by
  intro hoff
  unfold SimpleUpdateTracker.enableCopyrect at hoff ⊢
  split
  · rfl
  · next hkeep =>
      rw [if_neg hkeep] at hoff
      refine h ?_
      cases hon : t.copyEnabled with
      | false => rfl
      | true => simp_all

theorem Gated.absorb (h : t.Gated) (region : Region) : (t.absorb region).Gated := by
  intro hoff
  rw [absorb_copied, h hoff, Finset.empty_sdiff]

theorem Gated.subtract (h : t.Gated) (region : Region) : (t.subtract region).Gated := by
  intro hoff
  show t.copied \ region = ∅
  rw [h hoff, Finset.empty_sdiff]

@[simp] theorem enableCopyrect_copyEnabled (enable : Bool) :
    (t.enableCopyrect enable).copyEnabled = enable := by
  unfold SimpleUpdateTracker.enableCopyrect
  split <;> rfl

end SimpleUpdateTracker

namespace ClientUpdates

variable {ctx : UpdateContext} {c : ClientUpdates}

theorem gated_taken (h : c.updates.Gated) : (c.taken ctx).Gated :=
  (h.enableCopyrect ctx.useCopyRect).absorb _

theorem taken_copyEnabled : (c.taken ctx).copyEnabled = ctx.useCopyRect :=
  SimpleUpdateTracker.enableCopyrect_copyEnabled ctx.useCopyRect

/-- Copies are handed over only if the connection uses them. -/
theorem handed_copied (h : c.updates.Gated) (hcopied : (c.handed ctx).copied ≠ ∅) :
    ctx.useCopyRect = true := by
  rw [← @taken_copyEnabled ctx c]
  by_contra hoff
  have hnone : (c.taken ctx).copied = ∅ := gated_taken h (Bool.eq_false_iff.mpr hoff)
  refine hcopied ?_
  unfold handed
  dsimp only
  split
  · rfl
  · rw [hnone, Finset.empty_inter, Finset.empty_sdiff]

/-- Copy-pass rectangles are handed over from the queue, while nothing is pending. -/
theorem handed_copypassed :
    (c.handed ctx).copypassed = if ctx.pending ≠ ∅ then [] else c.copypassed := by
  unfold handed
  dsimp only
  split <;> rfl

theorem gated_writeDataUpdate (h : c.updates.Gated) : (c.writeDataUpdate ctx).1.updates.Gated := by
  rcases @updates_writeDataUpdate ctx c with hupdates | hupdates | hupdates
  · rw [hupdates]
    exact h.enableCopyrect _
  · rw [hupdates]
    exact gated_taken h
  · rw [hupdates]
    exact (gated_taken h).subtract _

end ClientUpdates

end KasmVNC.Rfb
