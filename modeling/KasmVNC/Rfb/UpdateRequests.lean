import KasmVNC.Rfb.HandedUpdate
import KasmVNC.Rfb.PendingFlags
import KasmVNC.Rfb.RectCount

/-!
# Update requests are answered

`writeFramebufferUpdate` first sends what needs no pixels and then the pixels. A
request is forgotten once it has been answered. `writeDataUpdate` decides whether
there is anything to send, and forgets the request in that case; the encode
manager then declines a lossless refresh while video is being sent. A request
that comes to nothing but such a refresh is swallowed.
-/

namespace KasmVNC.Rfb

open KasmVNC.Lib

namespace ClientUpdates

/-- A UDP client is due for the whole screen. -/
def FullFrameDue (ctx : UpdateContext) (c : ClientUpdates) : Prop :=
  countsUdpFrames ctx = true ∧ ctx.udpFullFrameFrequency ≤ c.udpFramesSinceFull ∧
    Region.ofRect ctx.screen ≠ ∅

/-- No pixels can be sent: the request covers nothing outstanding, or the server
has pending changes. -/
def NothingToSend (ctx : UpdateContext) (c : ClientUpdates) : Prop :=
  ¬ c.FullFrameDue ctx ∧
    (ctx.pending = ∅ → c.outstanding ctx ∩ c.request = ∅ ∧ c.copypassed = [])

/-- Something other than new pixels is due. -/
def RefreshDue (ctx : UpdateContext) (c : ClientUpdates) : Prop :=
  ctx.needFakeUpdate = true ∨
    (ctx.lossyRegion ∩ c.settled ctx ≠ ∅ ∧ ctx.losslessDue = true)

section Decision

variable (ctx : UpdateContext) (c : ClientUpdates)

/-- The three ways out of `send`. -/
theorem send_spec (req : Region) (ui : UpdateInfo) :
    (ui.isEmpty = false →
      (c.send ctx req ui).2 = .update ui ∧ (c.send ctx req ui).1.requested = ∅) ∧
    (ui.isEmpty = true →
      ¬ (ctx.needFakeUpdate = true ∨ (ctx.lossyRegion ∩ req ≠ ∅ ∧ ctx.losslessDue = true)) →
      c.send ctx req ui = (c, .nothing)) ∧
    (ui.isEmpty = true →
      (ctx.needFakeUpdate = true ∨ (ctx.lossyRegion ∩ req ≠ ∅ ∧ ctx.losslessDue = true)) →
      (c.send ctx req ui).2 = .losslessRefresh req ∧ (c.send ctx req ui).1.requested = ∅) := by
  refine ⟨fun hui => ?_, fun hui hnot => ?_, fun hui hdue => ?_⟩
  · unfold send
    rw [if_neg (by simp [hui]), if_pos (by simp [hui])]
    exact ⟨rfl, rfl⟩
  · unfold send
    refine if_pos ?_
    simp only [not_or, not_and, Bool.not_eq_true] at hnot
    by_cases hlossy : ctx.lossyRegion ∩ req ≠ ∅
    · simp [hui, hnot.1, hnot.2 hlossy]
    · simp [hui, hnot.1, needsLosslessRefresh, not_not.mp hlossy]
  · unfold send
    rw [if_neg ?_, if_neg (by simp [hui])]
    · exact ⟨rfl, rfl⟩
    · rcases hdue with hfake | ⟨hlossy, hdue⟩
      · simp [hfake]
      · simp [hdue, needsLosslessRefresh, hlossy]

variable {ctx c}

theorem fullFrameArea_eq_empty : c.fullFrameArea ctx = ∅ ↔ ¬ c.FullFrameDue ctx := by
  unfold fullFrameArea FullFrameDue
  split
  · tauto
  · tauto

/-- The update is empty when there is nothing to send. -/
theorem handed_isEmpty_iff : (c.handed ctx).isEmpty = true ↔ c.NothingToSend ctx := by
  rw [UpdateInfo.isEmpty_iff, handed_touched, handed_copypassed, Finset.union_eq_empty,
    fullFrameArea_eq_empty, NothingToSend]
  by_cases hpending : ctx.pending = ∅
  · simp only [hpending, ne_eq, not_true_eq_false, if_true, if_false, true_implies]
    tauto
  · simp [hpending]

/-- Nothing here switches continuous updates on or off. -/
theorem continuousUpdates_writeDataUpdate :
    (c.writeDataUpdate ctx).1.continuousUpdates = c.continuousUpdates := by
  by_cases hreq : c.request = ∅
  · rw [writeDataUpdate_unrequested hreq]
  · obtain ⟨c', hsend, -, -, -, hkept⟩ := @writeDataUpdate_handed ctx c hreq
    rw [hsend, ← hkept]
    unfold send
    split_ifs <;> rfl

/-- **What becomes of a request.** Pixels are sent if there are any; otherwise the
request is kept, unless a refresh is due. -/
theorem writeDataUpdate_cases (hreq : c.request ≠ ∅) :
    (¬ c.NothingToSend ctx → (∃ ui, (c.writeDataUpdate ctx).2 = .update ui) ∧
      (c.writeDataUpdate ctx).1.requested = ∅) ∧
    (c.NothingToSend ctx → ¬ c.RefreshDue ctx →
      (c.writeDataUpdate ctx).2 = .nothing ∧
        (c.writeDataUpdate ctx).1.requested = c.requested) ∧
    (c.NothingToSend ctx → c.RefreshDue ctx →
      (c.writeDataUpdate ctx).2 = .losslessRefresh (c.settled ctx) ∧
        (c.writeDataUpdate ctx).1.requested = ∅) := by
  obtain ⟨c', hsend, -, -, hrequested, -⟩ := @writeDataUpdate_handed ctx c hreq
  have hempty := @handed_isEmpty_iff ctx c
  obtain ⟨hupdate, hnothing, hrefresh⟩ := send_spec ctx c' (c.settled ctx) (c.handed ctx)
  rw [hsend]
  refine ⟨fun hsome => ?_, fun hnone hnot => ?_, fun hnone hdue => ?_⟩
  · obtain ⟨hout, hcleared⟩ := hupdate (by simpa using mt hempty.mp hsome)
    exact ⟨⟨_, hout⟩, hcleared⟩
  · rw [hnothing (hempty.mpr hnone) hnot]
    exact ⟨rfl, hrequested⟩
  · exact hrefresh (hempty.mpr hnone) hdue

end Decision

end ClientUpdates

end KasmVNC.Rfb
