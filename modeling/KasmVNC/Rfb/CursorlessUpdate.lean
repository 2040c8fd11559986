import KasmVNC.Rfb.WireOrder

/-!
# Updates without a rendered cursor

Without a rendered cursor an update is what the tracker has, as far as it is requested. If all
copies are requested, and those that are dropped are not read by a queued line, the client shows
what was planned.
-/

namespace KasmVNC.Rfb

open KasmVNC.Lib

variable {C : Type*} {dir : ScrollDirection}

namespace ClientUpdates

/-- Neither is a rendered cursor shown, nor will one be. -/
def Cursorless (c : ClientUpdates) : Prop :=
  c.damagedCursorRegion = ∅ ∧ c.updateRenderedCursor = false

variable {c : ClientUpdates} {ctx : UpdateContext}

theorem Cursorless.added (h : c.Cursorless) (ui : UpdateInfo) : c.added ctx ui = ∅ := by
  have hbogus : (∅ : Region).translate ui.copyDelta ∩ Region.ofRect ctx.pbRect = ∅ :=
    Finset.empty_inter _
  unfold ClientUpdates.added
  dsimp only
  rw [h.1, h.2, hbogus, ite_self, ite_self]
  rfl

theorem Cursorless.taken (h : c.Cursorless) :
    c.taken ctx = (c.updates.enableCopyrect ctx.useCopyRect).absorb ∅ := by
  unfold ClientUpdates.taken
  dsimp only
  rw [Cursorless.added]
  exact h

theorem Cursorless.collect (h : c.Cursorless) (req : Region) :
    (c.collect ctx req).1.Cursorless := by
  have hbogus : ∀ ui : UpdateInfo, ((c.getUpdateInfo req).1.repaintBogusCursor ctx ui) =
      ((c.getUpdateInfo req).1, false) := fun ui => if_neg fun hboth => hboth.2 h.1
  have hremove : (c.getUpdateInfo req).1.removeCursor.1.Cursorless := by
    unfold removeCursor
    split
    · exact ⟨rfl, h.2⟩
    · exact h
  have hupdate : ((c.getUpdateInfo req).1.removeCursor.1.updateCursor ctx).1.Cursorless := by
    unfold updateCursor
    rw [if_neg (Bool.eq_false_iff.mp hremove.2)]
    exact hremove
  unfold ClientUpdates.collect
  dsimp only
  rw [hbogus]
  dsimp only
  split
  · exact hupdate
  · exact hupdate

theorem Cursorless.writeDataUpdate (h : c.Cursorless) (hneed : ctx.needRenderedCursor = false) :
    (c.writeDataUpdate ctx).1.Cursorless := by
  have hsend : ∀ {c : ClientUpdates} (req : Region) (ui : UpdateInfo), c.Cursorless →
      (c.send ctx req ui).1.Cursorless := by
    intro c req ui hc
    unfold send
    split_ifs <;> exact hc
  have hfull : ∀ {c : ClientUpdates} (ui : UpdateInfo), c.Cursorless →
      (c.fullFrame ctx ui).1.Cursorless := by
    intro c ui hc
    unfold fullFrame
    split_ifs <;> exact hc
  have hrender : ∀ {c : ClientUpdates} (ui : UpdateInfo), c.Cursorless →
      (c.renderCursor ctx ui).1.Cursorless := by
    intro c ui hc
    unfold renderCursor
    rw [hneed]
    exact hc
  unfold ClientUpdates.writeDataUpdate
  dsimp only
  split
  · exact h
  · refine hsend _ _ (hfull _ (hrender _ ?_))
    have hsame : ({ c with updates := c.updates.enableCopyrect ctx.useCopyRect } :
        ClientUpdates).Cursorless := h
    exact hsame.collect _

/-- Where the client will have each pixel from, without what is dropped for good. -/
theorem mem_plan {p x : Point} : x ∈ c.plan p ↔
    p ∉ c.updates.changed ∧ (⟨c.updates.copied \ c.updates.changed, c.updates.copyDelta⟩ :
      Move Point).origin (origins (copyMoves c.copypassed) p) = x :=
  UpdateInfo.mem_plan

/-- If `useCopyRect` is off, the copies will be dropped; none of them is read by a queued line. -/
def ReadsNoDropped (region : Region) (useCopyRect : Bool) (c : ClientUpdates) : Prop :=
  useCopyRect = false → ∀ p ∈ region, p ∉ c.updates.changed ∪ c.updates.copied →
    origins (copyMoves c.copypassed) p ∉ c.updates.copied

variable {region : Region}

/-- Taking in the copies that are dropped, and those that have changed, changes no plan. -/
theorem plan_taken (h : c.Cursorless)
    (hreads : c.ReadsNoDropped region ctx.useCopyRect) {p : Point} (hp : p ∈ region)
    (hout : p ∉ (c.taken ctx).changed) :
    c.plan p = some ((c.taken ctx).copy.origin (origins (copyMoves c.copypassed) p)) := by
  rw [h.taken] at hout ⊢
  have hchanged : (c.updates.enableCopyrect ctx.useCopyRect).changed ⊇ c.updates.changed := by
    unfold SimpleUpdateTracker.enableCopyrect
    split
    · exact Finset.subset_union_left
    · exact Finset.Subset.refl _
  have hpc : p ∉ c.updates.changed := fun hin => hout (Finset.mem_union_left _ (hchanged hin))
  refine mem_plan.mpr ⟨hpc, Move.origin_congr ?_ ?_⟩
  · show _ ∈ c.updates.copied \ c.updates.changed ↔ _ ∈ ((c.updates.enableCopyrect
      ctx.useCopyRect).absorb ∅).copied
    by_cases hoff : (!ctx.useCopyRect && c.updates.copyEnabled) = true
    · have hdropped : c.updates.enableCopyrect ctx.useCopyRect =
          { c.updates.addChanged c.updates.copied with
            copied := ∅, copyEnabled := ctx.useCopyRect } := if_pos hoff
      rw [hdropped] at hout ⊢
      have hno := hreads (by simpa using (Bool.and_eq_true_iff.mp hoff).1) p hp fun hin =>
        hout (Finset.mem_union_left _ hin)
      exact ⟨fun hin => absurd (Finset.mem_sdiff.mp hin).1 hno,
        fun hin => absurd (Finset.mem_sdiff.mp hin).1 (Finset.notMem_empty _)⟩
    · have hkept : c.updates.enableCopyrect ctx.useCopyRect =
          { c.updates with copyEnabled := ctx.useCopyRect } := if_neg hoff
      rw [hkept, SimpleUpdateTracker.absorb_copied, Finset.union_empty]
  · show c.updates.copyDelta = (c.updates.enableCopyrect ctx.useCopyRect).copyDelta
    unfold SimpleUpdateTracker.enableCopyrect
    split <;> rfl

/-- A plan is made of what the tracker is once it has forgotten the copies that have changed. -/
theorem mem_plan_absorb {p x : Point} : x ∈ c.plan p ↔ p ∉ (c.updates.absorb ∅).changed ∧
    (c.updates.absorb ∅).copy.origin (origins (copyMoves c.copypassed) p) = x := by
  rw [mem_plan]
  unfold SimpleUpdateTracker.absorb SimpleUpdateTracker.copy
  rw [Finset.union_empty]

/-- Nothing was sent, but copies may have been dropped. -/
theorem plan_of_kept (h : c.Cursorless) (hreads : c.ReadsNoDropped region ctx.useCopyRect)
    {c' : ClientUpdates} (hupdates : c'.updates.absorb ∅ = c.taken ctx)
    (hqueue : c'.copypassed = c.copypassed) {p x : Point} (hp : p ∈ region) (hx : x ∈ c'.plan p) :
    x ∈ c.plan p := by
  rw [mem_plan_absorb, hupdates, hqueue] at hx
  rw [plan_taken h hreads hp hx.1]
  exact congrArg some hx.2

theorem taken_absorb : (c.taken ctx).absorb ∅ = c.taken ctx := by
  unfold taken
  dsimp only
  rw [SimpleUpdateTracker.absorb_absorb, Finset.union_empty]

theorem taken_copied (h : c.Cursorless) : (c.taken ctx).copied ⊆ c.updates.copied := by
  rw [h.taken]
  exact Finset.sdiff_subset.trans SimpleUpdateTracker.copied_enableCopyrect

theorem copied_writeDataUpdate (h : c.Cursorless) :
    (c.writeDataUpdate ctx).1.updates.copied ⊆ c.updates.copied := by
  have htaken := @taken_copied c ctx h
  rcases @updates_writeDataUpdate ctx c with hupdates | hupdates | hupdates
  · rw [hupdates]
    exact SimpleUpdateTracker.copied_enableCopyrect
  · rw [hupdates]
    exact htaken
  · rw [hupdates]
    exact Finset.sdiff_subset.trans htaken

/-- After all copies have been sent, each pixel that is not to be sent is where it belongs. -/
theorem plan_of_sent {req : Region} (hcopied : (c.taken ctx).copied ⊆ req) {c' : ClientUpdates}
    (hupdates : c'.updates = (c.taken ctx).subtract req) (hqueue : c'.copypassed = [])
    {p x : Point} : x ∈ c'.plan p ↔ p ∉ c'.updates.changed ∧ x = p := by
  have hself : (⟨c'.updates.copied \ c'.updates.changed, c'.updates.copyDelta⟩ :
      Move Point).origin (origins (copyMoves c'.copypassed) p) = p := by
    rw [hqueue, hupdates]
    refine Move.origin_of_notMem fun hin => ?_
    have hin := Finset.mem_sdiff.mp (Finset.mem_sdiff.mp hin).1
    exact hin.2 (hcopied hin.1)
  rw [mem_plan, hself]
  exact and_congr_right fun _ => eq_comm

/-- What is settled has neither changed nor been copied, if there is nothing to send. -/
theorem notMem_settled (hempty : (c.handed ctx).isEmpty = true) {p : Point}
    (hp : p ∈ (c.taken ctx).touched) : p ∉ c.settled ctx := by
  intro hin
  unfold settled at hin
  by_cases hpending : ctx.pending = ∅
  · rw [if_pos hpending] at hin
    have hnone := ((UpdateInfo.isEmpty_iff _).mp hempty).1
    rw [handed_touched, if_pos hpending, ← taken_touched] at hnone
    exact Finset.notMem_empty p
      (hnone ▸ Finset.mem_union_left _ (Finset.mem_inter.mpr ⟨hp, hin⟩))
  · rw [if_neg hpending] at hin
    rw [taken_touched] at hp
    exact (Finset.mem_sdiff.mp (Finset.mem_sdiff.mp hin).1).2 hp

theorem subtract_settled (hempty : (c.handed ctx).isEmpty = true) :
    (c.taken ctx).subtract (c.settled ctx) = c.taken ctx := by
  unfold SimpleUpdateTracker.subtract
  rw [Finset.sdiff_eq_self_of_disjoint, Finset.sdiff_eq_self_of_disjoint]
  · exact Finset.disjoint_left.mpr fun p hp => notMem_settled hempty (Finset.mem_union_right _ hp)
  · exact Finset.disjoint_left.mpr fun p hp => notMem_settled hempty (Finset.mem_union_left _ hp)

/-- Nor has it been queued. -/
theorem notMem_copypassDest (hempty : (c.handed ctx).isEmpty = true) {p : Point}
    (hp : p ∈ c.settled ctx) : p ∉ copypassDest c.copypassed := by
  unfold settled at hp
  by_cases hpending : ctx.pending = ∅
  · have hnone := ((UpdateInfo.isEmpty_iff _).mp hempty).2
    rw [handed_copypassed, if_neg (not_not.mpr hpending)] at hnone
    rw [hnone]
    exact Finset.notMem_empty p
  · rw [if_neg hpending] at hp
    exact (Finset.mem_sdiff.mp hp).2

/-- Nothing is sent of the tracker, or an update is. -/
theorem writeDataUpdate_kept_or_sent (h : c.Cursorless) :
    ((c.writeDataUpdate ctx).1.updates.absorb ∅ = c.taken ctx ∧
        (c.writeDataUpdate ctx).1.copypassed = c.copypassed ∧
        ((c.writeDataUpdate ctx).2 = .nothing ∨
          (c.handed ctx).isEmpty = true ∧
            (c.writeDataUpdate ctx).2 = .losslessRefresh (c.settled ctx))) ∨
      c.request ≠ ∅ ∧ (c.handed ctx).isEmpty = false ∧
        (c.writeDataUpdate ctx).2 = .update (c.handed ctx) ∧
        (c.writeDataUpdate ctx).1.updates = (c.taken ctx).subtract (c.settled ctx) ∧
        (c.writeDataUpdate ctx).1.copypassed = [] := by
  by_cases hreq : c.request = ∅
  · rw [writeDataUpdate_unrequested hreq, h.taken]
    exact Or.inl ⟨rfl, rfl, Or.inl rfl⟩
  · obtain ⟨hsome, hnone⟩ := @writeDataUpdate_outcome ctx c hreq
    cases hempty : (c.handed ctx).isEmpty with
    | false =>
      obtain ⟨hsent, hupdates, hqueue⟩ := hsome hempty
      exact Or.inr ⟨hreq, rfl, hsent, hupdates, hqueue⟩
    | true =>
      obtain ⟨hqueue, ⟨hnothing, hupdates⟩ | ⟨hrefresh, hupdates⟩⟩ := hnone hempty
      · rw [hupdates, taken_absorb]
        exact Or.inl ⟨rfl, hqueue, Or.inl hnothing⟩
      · rw [hupdates, subtract_settled hempty, taken_absorb]
        exact Or.inl ⟨rfl, hqueue, Or.inr ⟨rfl, hrefresh⟩⟩

end ClientUpdates

namespace FrameServer

variable {cfg : FrameSettings C} {s : FrameServer C dir} {i : UpdateInput C} {cl : FrameClient C}

/-- What is pending covers all that the comparer knows of. -/
theorem touched_inter_subset (blocked : Bool) :
    s.comparer.tracker.touched ∩ s.size.region ⊆ (s.getPendingRegion blocked).2 := by
  unfold getPendingRegion
  split
  · exact Finset.inter_subset_right
  split
  · next hnone =>
      unfold SimpleUpdateTracker.touched
      rw [hnone.1, hnone.2]
      exact (Finset.empty_inter _).subset
  · exact (UpdateInfo.touched_getUpdateInfo _ _).symm.subset

theorem notMem_touched {blocked : Bool} {p : Point} (hp : p ∈ s.size.region)
    (hout : p ∉ (s.getPendingRegion blocked).2) : p ∉ s.comparer.tracker.touched :=
  fun hin => hout (touched_inter_subset blocked (Finset.mem_inter.mpr ⟨hin, hp⟩))

/-- What makes an update of a client without a rendered cursor right: all copies are requested,
those that are dropped are not read by queued lines, and a full frame is not sent while something
is pending. -/
structure Updates (cfg : FrameSettings C) (s : FrameServer C dir) (i : UpdateInput C)
    (cl : FrameClient C) : Prop where
  requested : cl.updates.request ≠ ∅ → cl.updates.updates.copied ⊆ cl.updates.request
  reads : cl.updates.ReadsNoDropped s.size.region cl.cp.useCopyRect
  fullFrame : (s.getPendingRegion i.blocked).2 ≠ ∅ →
    cl.updates.fullFrameArea (s.updateContext cfg cl i) = ∅

/-- While something is pending nothing is handed over, but for a full frame. -/
theorem Updates.pending_of_handed (h : s.Updates cfg i cl)
    (hsome : (cl.updates.handed (s.updateContext cfg cl i)).isEmpty = false) :
    (s.getPendingRegion i.blocked).2 = ∅ := by
  by_contra hpending
  have hfull := h.fullFrame hpending
  have hempty : (cl.updates.handed (s.updateContext cfg cl i)).isEmpty = true := by
    have hpending : (s.updateContext cfg cl i).pending ≠ ∅ := hpending
    unfold ClientUpdates.handed
    dsimp only
    rw [if_pos hpending, hfull]
    rfl
  rw [hsome] at hempty
  cases hempty

theorem cursorArea_eq_empty (hneed : i.needRenderedCursor = false) : i.cursorArea = ∅ :=
  if_neg (Bool.eq_false_iff.mp hneed)

theorem mem_sendable (hneed : i.needRenderedCursor = false) {p : Point}
    (hp : p ∈ s.size.region) (hout : p ∉ (s.getPendingRegion i.blocked).2) : p ∈ s.sendable i := by
  unfold sendable
  rw [cursorArea_eq_empty hneed, Finset.sdiff_empty]
  exact Finset.mem_sdiff.mpr ⟨hp, notMem_touched hp hout⟩

/-- Pixels that are sent where they are known. -/
theorem delivers_of_settled {sent : Plan Point} {p x : Point} {region fresh : Region}
    (hsent : sent = UpdateInfo.plan ⟨fresh, ∅, (0, 0), []⟩) {sendable : Region}
    (hfresh : ∀ y ∈ fresh, y ∈ region → y ∈ sendable ∧ y ∈ cl.updates.plan y)
    (hx : x ∈ cl.updates.plan p) (hin : x ∈ region) :
    Plan.Delivers region ∅ sendable sent cl.updates.plan p x := by
  rw [hsent]
  refine ⟨fun hnone => ?_, fun y hy => ?_⟩
  · have hmem : x ∈ fresh := by
      by_contra hout
      rw [UpdateInfo.plan_of_notMem hout] at hnone
      cases hnone
    obtain ⟨hsendable, hself⟩ := hfresh x hmem hin
    exact ⟨hsendable, Or.inr ⟨⟨hin, hself, Finset.notMem_empty x⟩, hx⟩⟩
  · obtain ⟨-, rfl⟩ := UpdateInfo.mem_plan.mp hy
    refine ⟨?_, Finset.notMem_empty _⟩
    have hself : (⟨fresh, ∅, (0, 0), []⟩ : UpdateInfo).origin x = x :=
      Move.origin_of_notMem (Finset.notMem_empty _)
    rw [hself]
    exact hx

/-- **The update is right.** -/
theorem Updates.right (h : s.Updates cfg i cl) (hcursor : cl.updates.Cursorless)
    (hneed : i.needRenderedCursor = false)
    (hinside : ∀ p ∈ s.size.region, ∀ x ∈ cl.updates.plan p, x ∈ s.size.region) :
    s.UpdateRight cfg i cl := by
  have hpending := @Updates.pending_of_handed _ _ _ _ _ _ h
  have harea : ClientUpdates.cursorArea (s.updateContext cfg cl i) = ∅ :=
    if_neg (Bool.eq_false_iff.mp hneed)
  unfold UpdateRight dataUpdate
  dsimp only
  generalize hctx : s.updateContext cfg cl i = ctx at *
  have hreads : cl.updates.ReadsNoDropped s.size.region ctx.useCopyRect := by
    rw [← hctx]
    exact h.reads
  have hpend : ctx.pending = (s.getPendingRegion i.blocked).2 := by
    rw [← hctx]
    rfl
  intro p hp x hx _
  rw [hcursor.1]
  rcases @ClientUpdates.writeDataUpdate_kept_or_sent _ ctx hcursor with
    ⟨hupdates, hqueue, hsent⟩ | ⟨hreq, hsome, hsent, hupdates, hqueue⟩
  · -- nothing is taken from the tracker
    have hold := ClientUpdates.plan_of_kept hcursor hreads hupdates hqueue hp hx
    have hin := hinside p hp x hold
    rcases hsent with hnothing | ⟨hempty, hrefresh⟩
    · rw [hnothing]
      exact delivers_of_settled rfl (fun y hy => absurd hy (Finset.notMem_empty y)) hold hin
    · rw [hrefresh]
      unfold DataUpdate.info
      dsimp only
      split
      · exact delivers_of_settled rfl (fun y hy => absurd hy (Finset.notMem_empty y)) hold hin
      · refine delivers_of_settled rfl (fun y hy hyin => ?_) hold hin
        have hsettled := (Finset.mem_inter.mp hy).2
        have htouched : y ∉ (ClientUpdates.taken ctx cl.updates).touched := fun hmem =>
          ClientUpdates.notMem_settled hempty hmem hsettled
        obtain ⟨hchanged, hcopied⟩ := Finset.notMem_union.mp htouched
        refine ⟨mem_sendable hneed hyin ?_, ?_⟩
        · rw [← hpend]
          unfold ClientUpdates.settled at hsettled
          by_cases hnone : ctx.pending = ∅
          · rw [hnone]
            exact Finset.notMem_empty y
          · rw [if_neg hnone] at hsettled
            exact (Finset.mem_sdiff.mp (Finset.mem_sdiff.mp
              (Finset.mem_sdiff.mp hsettled).1).1).2
        · rw [ClientUpdates.plan_taken hcursor hreads hyin hchanged,
            origins_of_notMem (ClientUpdates.notMem_copypassDest hempty hsettled)]
          exact congrArg some (Move.origin_of_notMem hcopied)
  · -- all that is requested is sent
    have hnone : ctx.pending = ∅ := by
      rw [hpend]
      exact hpending hsome
    have hcopied : (ClientUpdates.taken ctx cl.updates).copied ⊆ cl.updates.request :=
      (ClientUpdates.taken_copied hcursor).trans (h.requested hreq)
    rw [ClientUpdates.settled, if_pos hnone] at hupdates
    obtain ⟨hout, rfl⟩ := (ClientUpdates.plan_of_sent hcopied hupdates hqueue).mp hx
    rw [hupdates] at hout
    rw [hsent]
    unfold DataUpdate.info
    dsimp only
    refine ⟨fun _ => ⟨mem_sendable hneed hp ?_, Or.inl rfl⟩, fun y hy => ?_⟩
    · rw [← hpend, hnone]
      exact Finset.notMem_empty x
    · obtain ⟨hchanged, rfl⟩ := UpdateInfo.mem_plan.mp hy
      refine ⟨?_, Finset.notMem_empty _⟩
      unfold ClientUpdates.handed at hchanged ⊢
      dsimp only at hchanged ⊢
      rw [if_neg (not_not.mpr hnone)] at hchanged ⊢
      have htaken : x ∉ (ClientUpdates.taken ctx cl.updates).changed := by
        intro hin
        by_cases hrequested : x ∈ cl.updates.request
        · exact hchanged (Finset.mem_union_left _ (Finset.mem_union_left _
            (Finset.mem_inter.mpr ⟨hin, hrequested⟩)))
        · exact hout (Finset.mem_sdiff.mpr ⟨hin, hrequested⟩)
      rw [ClientUpdates.plan_taken hcursor hreads hp htaken]
      refine congrArg some (Move.origin_congr ?_ rfl)
      show _ ∈ (ClientUpdates.taken ctx cl.updates).copied ↔ _ ∈ _ \ _
      rw [harea, Finset.sdiff_empty, Finset.inter_eq_left.mpr hcopied]

/-- An update leaves no pixel to be taken from elsewhere than before, unless from itself. -/
theorem Updates.plan_dataUpdate (h : s.Updates cfg i cl) (hcursor : cl.updates.Cursorless)
    {p x : Point} (hp : p ∈ s.size.region) (hx : x ∈ (s.dataUpdate cfg cl i).1.plan p) :
    x = p ∨ x ∈ cl.updates.plan p := by
  have hpending := @Updates.pending_of_handed _ _ _ _ _ _ h
  unfold dataUpdate at hx
  rcases @ClientUpdates.writeDataUpdate_kept_or_sent _ (s.updateContext cfg cl i) hcursor with
    ⟨hupdates, hqueue, -⟩ | ⟨hreq, hsome, -, hupdates, hqueue⟩
  · exact Or.inr (ClientUpdates.plan_of_kept hcursor h.reads hupdates hqueue hp hx)
  · have hnone : (s.updateContext cfg cl i).pending = ∅ := hpending hsome
    rw [ClientUpdates.settled, if_pos hnone] at hupdates
    exact Or.inl ((ClientUpdates.plan_of_sent
      ((ClientUpdates.taken_copied hcursor).trans (h.requested hreq)) hupdates hqueue).mp hx).2

end FrameServer

end KasmVNC.Rfb
