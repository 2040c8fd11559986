import KasmVNC.Rfb.ClientPlan

/-!
# The order of the wire

What a connection has collected is sent in the order of the wire: the copies, the queued lines of
scrolls, the changed pixels. The copies of a frame that comes after lines were queued are sent
before them, and a copy that has changed is dropped, whatever still reads it.
-/

namespace KasmVNC.Rfb

open KasmVNC.Lib

variable {C : Type*}

/-! ## What a frame adds -/

/-- Outside the changed region, a pixel has from the old copies what the new one reads. -/
theorem SimpleUpdateTracker.addCopied_origin (t : SimpleUpdateTracker) (dest : Region)
    (delta : Point) {p : Point} (hp : p ∉ (t.addCopied dest delta).changed) :
    let q := (⟨dest, delta⟩ : Move Point).origin p
    q ∉ t.changed ∧ (t.addCopied dest delta).copy.origin p = t.copy.origin q := by
  intro q
  -- the client shows each pixel's place, and the server where it is from
  let server : Point → Option Point := fun r =>
    if r ∈ t.changed then none else some (t.copy.origin r)
  have hsync : InSync t some server := fun r hr => if_neg hr
  have hq : server q = some ((t.addCopied dest delta).copy.origin p) :=
    hsync.addCopied dest delta p hp
  by_cases hchanged : q ∈ t.changed
  · rw [show server q = none from if_pos hchanged] at hq
    cases hq
  · rw [show server q = some (t.copy.origin q) from if_neg hchanged] at hq
    exact ⟨hchanged, (Option.some.inj hq).symm⟩

theorem SimpleUpdateTracker.addCopied_copied (t : SimpleUpdateTracker) (dest : Region)
    (delta : Point) : (t.addCopied dest delta).copied ⊆ t.copied ∪ dest := by
  unfold SimpleUpdateTracker.addCopied
  split
  · exact Finset.subset_union_left
  split
  · exact Finset.subset_union_left
  dsimp only
  split
  · split
    · exact Finset.subset_union_left
    · exact Finset.subset_union_right
  · intro p hp
    have hsrc := (Finset.mem_inter.mp (Region.mem_translate.mp hp)).1
    rw [Region.mem_translate, sub_neg_eq_add, sub_add_cancel] at hsrc
    exact Finset.mem_union_right _ hsrc

theorem SimpleUpdateTracker.copied_enableCopyrect {t : SimpleUpdateTracker} {enable : Bool} :
    (t.enableCopyrect enable).copied ⊆ t.copied := by
  unfold SimpleUpdateTracker.enableCopyrect
  split
  · exact Finset.empty_subset _
  · exact Finset.Subset.refl _

namespace FrameClient

/-- What is collected with a frame can be sent in the order of the wire: no line reads a pixel
that will be sent before, or one whose copy is dropped, and the frame's copies may as well come
before the lines that are queued. -/
def KeepsOrder (region : Region) (ui : UpdateInfo) (cl : FrameClient C) : Prop :=
  let copied := (cl.updates.addCopied ui.copied ui.copyDelta).updates
  let next := (cl.addUpdate ui).updates
  ∀ p ∈ region, p ∉ next.updates.changed →
    let q := origins (copyMoves next.copypassed) p
    (q ∉ copied.changed ∧ (q ∈ copied.copied → q ∉ next.updates.changed)) ∧
      (cl.updates.copypassed ≠ [] →
        ui.copy.origin q = origins (copyMoves cl.updates.copypassed) (ui.copy.origin p))

variable {cl : FrameClient C} {ui : UpdateInfo} {region : Region}

/-- Lines that come while others are queued are sent as changes. -/
theorem addUpdate_queue :
    (cl.addUpdate ui).updates.updates.copied =
        (cl.updates.addCopied ui.copied ui.copyDelta).updates.copied ∧
      (cl.addUpdate ui).updates.updates.copyDelta =
        (cl.updates.addCopied ui.copied ui.copyDelta).updates.copyDelta ∧
      (cl.updates.addCopied ui.copied ui.copyDelta).updates.changed ∪ ui.changed ⊆
        (cl.addUpdate ui).updates.updates.changed ∧
      (cl.updates.copypassed = [] ∧ (cl.addUpdate ui).updates.copypassed = ui.copypassed ∨
        cl.updates.copypassed ≠ [] ∧
          (cl.addUpdate ui).updates.copypassed = cl.updates.copypassed ∧
          ClientUpdates.copypassDest ui.copypassed ⊆
            (cl.addUpdate ui).updates.updates.changed) := by
  have hqueue : (cl.updates.addCopied ui.copied ui.copyDelta).copypassed =
      cl.updates.copypassed := rfl
  unfold addUpdate ClientUpdates.addCopypassed
  dsimp only
  rw [hqueue]
  by_cases hnone : cl.updates.copypassed = []
  · rw [if_neg (not_not.mpr hnone)]
    exact ⟨rfl, rfl, Finset.Subset.refl _, Or.inl ⟨hnone, rfl⟩⟩
  · rw [if_pos hnone]
    refine ⟨rfl, rfl, ?_, Or.inr ⟨hnone, hqueue, ?_⟩⟩
    · exact Finset.union_subset_union_left Finset.subset_union_left
    · exact Finset.subset_union_right.trans Finset.subset_union_left

/-- **What is collected is right**, if the order of the wire does not matter. -/
theorem KeepsOrder.follows (h : cl.KeepsOrder region ui) : cl.Follows region ui := by
  obtain ⟨hcopied, hdelta, hchanged, hqueue⟩ := @addUpdate_queue _ cl ui
  intro p hp x hx _
  obtain ⟨hout, hx⟩ := UpdateInfo.mem_plan.mp hx
  obtain ⟨⟨hread, hkept⟩, horder⟩ := h p hp hout
  have hunchanged : p ∉ ui.changed := fun hin =>
    hout (hchanged (Finset.mem_union_right _ hin))
  -- what the wire's order makes of the pixel
  have hx : x = (cl.updates.addCopied ui.copied ui.copyDelta).updates.copy.origin
      (origins (copyMoves (cl.addUpdate ui).updates.copypassed) p) := by
    rw [← hx]
    refine Move.origin_congr ?_ hdelta
    show _ ∈ (cl.addUpdate ui).updates.updates.copied \ _ ↔ _
    rw [hcopied, Finset.mem_sdiff]
    exact and_iff_left_of_imp hkept
  obtain ⟨hsource, hfrom⟩ := cl.updates.updates.addCopied_origin ui.copied ui.copyDelta hread
  have hplan : ∀ q, q ∉ cl.updates.updates.changed →
      origins (copyMoves cl.updates.copypassed) q =
        ui.copy.origin (origins (copyMoves (cl.addUpdate ui).updates.copypassed) p) →
      x ∈ cl.updates.plan q := by
    intro q hq hsame
    refine UpdateInfo.mem_plan.mpr ⟨hq, ?_⟩
    rw [hx]
    refine Eq.trans ?_ hfrom.symm
    show (⟨cl.updates.updates.copied \ cl.updates.updates.changed, _⟩ : Move Point).origin
      (origins (copyMoves cl.updates.copypassed) q) = _
    rw [hsame]
    exact Move.origin_congr (by
      rw [Finset.mem_sdiff]
      exact and_iff_left hsource) rfl
  refine Plan.mem_andThen.mpr ⟨ui.origin p, UpdateInfo.mem_plan.mpr ⟨hunchanged, rfl⟩, ?_⟩
  rcases hqueue with ⟨hnone, hlines⟩ | ⟨hsome, hlines, hdest⟩
  · -- the lines are the frame's own
    have hsame : ui.origin p =
        ui.copy.origin (origins (copyMoves (cl.addUpdate ui).updates.copypassed) p) := by
      rw [hlines]
      rfl
    refine hplan _ ?_ ?_
    · rw [hsame]
      exact hsource
    · rw [hnone, hsame]
      rfl
  · -- the frame's own lines will be sent as changes
    have hself : ui.origin p = ui.copy.origin p := by
      unfold UpdateInfo.origin
      rw [origins_of_notMem fun hin => hout (hdest hin)]
    have hpsource := (cl.updates.updates.addCopied_origin ui.copied ui.copyDelta fun hin =>
      hout (hchanged (Finset.mem_union_left _ hin))).1
    refine hplan _ ?_ ?_
    · rw [hself]
      exact hpsource
    · rw [hself]
      exact (horder hsome).symm

end FrameClient

end KasmVNC.Rfb
