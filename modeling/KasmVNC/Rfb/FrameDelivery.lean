import KasmVNC.Rfb.CursorlessUpdate

/-!
# Delivery over runs

In a run without a rendered cursor the plans of all clients stay right, as long as the order of
the wire does not matter. An update that is sent then leaves its client with the framebuffer, but
for what is still to be sent.
-/

namespace KasmVNC.Rfb

open KasmVNC.Lib

variable {C : Type*} {dir : ScrollDirection}

namespace FrameClient

/-- What the connections keep: there is no rendered cursor, copies stay in their area, and what
the client shows outside the framebuffer is not needed. -/
structure Steady (region area : Region) (cl : FrameClient C) : Prop where
  cursorless : cl.updates.Cursorless
  copied : cl.updates.updates.copied ⊆ area
  inside : ∀ p ∈ region, ∀ x ∈ cl.updates.plan p, x ∈ region

variable {cl : FrameClient C} {region area : Region} {ui : UpdateInfo}

/-- Everything will be sent. -/
theorem steady_of_changed (hcursor : cl.updates.Cursorless)
    (hcopied : cl.updates.updates.copied = ∅) (hchanged : region ⊆ cl.updates.updates.changed) :
    cl.Steady region area := by
  refine ⟨hcursor, hcopied ▸ Finset.empty_subset _, fun p hp x hx => ?_⟩
  exact absurd (hchanged hp) (ClientUpdates.mem_plan.mp hx).1

theorem Steady.addUpdate (h : cl.Steady region area) (hcopied : ui.copied ⊆ area)
    (hplan : ∀ p ∈ region, ∀ q ∈ ui.plan p, q ∈ region) (hfollows : cl.Follows region ui) :
    (cl.addUpdate ui).Steady region area := by
  obtain ⟨hsame, -⟩ := @addUpdate_queue _ cl ui
  refine ⟨⟨addUpdate_damaged.trans h.cursorless.1, ?_⟩, ?_, fun p hp x hx => ?_⟩
  · refine Eq.trans ?_ h.cursorless.2
    unfold FrameClient.addUpdate ClientUpdates.addCopypassed
    dsimp only
    split <;> rfl
  · rw [hsame]
    exact (SimpleUpdateTracker.addCopied_copied _ _ _).trans (Finset.union_subset h.copied hcopied)
  · have hfree : x ∉ cl.updates.damagedCursorRegion := by
      rw [h.cursorless.1]
      exact Finset.notMem_empty x
    obtain ⟨q, hq, hxq⟩ := Plan.mem_andThen.mp (hfollows p hp x hx hfree)
    exact h.inside q (hplan p hp q hq) x hxq

/-- A request for everything, or without copies, takes nothing from elsewhere. -/
theorem plan_framebufferUpdateRequest {r : Rect} {incremental : Bool}
    (h : incremental = true ∨ cl.updates.updates.copied = ∅ ∨
      region ⊆ Region.ofRect (r.intersect ⟨(0, 0), (cl.cp.width, cl.cp.height)⟩)) {p x : Point}
    (hp : p ∈ region) (hx : x ∈ (cl.framebufferUpdateRequest r incremental).updates.plan p) :
    x ∈ cl.updates.plan p := by
  cases incremental with
  | true => exact hx
  | false =>
    rcases h with htrue | hnone | hall
    · cases htrue
    · obtain ⟨hout, hx⟩ := ClientUpdates.mem_plan.mp hx
      refine ClientUpdates.mem_plan.mpr ⟨fun hin => hout (Finset.mem_union_left _ hin), ?_⟩
      rw [← hx]
      have hcopied : (cl.framebufferUpdateRequest r false).updates.updates.copied = ∅ := hnone
      rw [hnone, hcopied, Finset.empty_sdiff, Finset.empty_sdiff]
      rfl
    · obtain ⟨hout, -⟩ := ClientUpdates.mem_plan.mp hx
      exact absurd (Finset.mem_union_right _ (hall hp)) hout

end FrameClient

namespace FrameServer

/-- The steps that keep the plans right, if there is no rendered cursor. -/
def Orderly [DecidableEq C] (cfg : FrameSettings C) (s : FrameServer C dir) :
    FrameEvent C dir → Prop
  | .framebufferUpdateRequest n r incremental => ∀ cl ∈ s.clients[n]?,
      incremental = true ∨ cl.updates.updates.copied = ∅ ∨
        s.size.region ⊆ Region.ofRect (r.intersect ⟨(0, 0), (cl.cp.width, cl.cp.height)⟩)
  | .renderedCursorChange _ need => need = false
  | .writeUpdate i => ∀ ui ∈ frameInfo cfg s i, KeepsCopies cfg s i ui ∧
      ui.KeepsHidden cfg s.size ∧ ∀ cl ∈ s.clients, cl.KeepsOrder s.size.region ui
  | .writeFramebufferUpdate n i => i.needRenderedCursor = false ∧
      ∀ cl ∈ s.clients[n]?, Attempted cl → s.Updates cfg i cl
  | _ => True

/-- The plans are right, and the connections are steady. -/
def Delivering (cfg : FrameSettings C) (s : FrameServer C dir) : Prop :=
  s.Synced cfg ∧ ∀ cl ∈ s.clients, cl.Steady s.size.region (s.copyArea cfg)

variable {cfg : FrameSettings C} {s : FrameServer C dir}

theorem Updates.steady {i : UpdateInput C} {cl : FrameClient C} {area : Region}
    (h : s.Updates cfg i cl) (hneed : i.needRenderedCursor = false)
    (hcl : cl.Steady s.size.region area) {image : Point → C} :
    ({ cl with updates := (s.dataUpdate cfg cl i).1, image := image } : FrameClient C).Steady
      s.size.region area := by
  refine ⟨hcl.cursorless.writeDataUpdate hneed, ?_, fun p hp x hx => ?_⟩
  · exact (ClientUpdates.copied_writeDataUpdate hcl.cursorless).trans hcl.copied
  · rcases h.plan_dataUpdate hcl.cursorless hp hx with rfl | hold
    · exact hp
    · exact hcl.inside p hp x hold

theorem copyArea_eq {s' : FrameServer C dir} (hsize : s'.size = s.size) :
    s'.copyArea cfg = s.copyArea cfg := by
  unfold copyArea
  rw [hsize]

variable [DecidableEq C]

theorem Delivering.right (h : s.Delivering cfg) {e : FrameEvent C dir} (he : s.Orderly cfg e) :
    s.Right cfg e := by
  have hmem : ∀ {n : ℕ} {cl : FrameClient C}, cl ∈ s.clients[n]? →
      cl.Steady s.size.region (s.copyArea cfg) := fun hcl => h.2 _ (List.mem_of_getElem? hcl)
  cases e with
  | framebufferUpdateRequest n r incremental =>
    exact fun cl hcl p hp x hx _ =>
      FrameClient.plan_framebufferUpdateRequest (he cl hcl) hp hx
  | writeUpdate i =>
    intro ui hui
    obtain ⟨hkeeps, hhidden, horder⟩ := he ui hui
    exact ⟨hkeeps, hhidden, fun cl hcl => (horder cl hcl).follows⟩
  | writeFramebufferUpdate n i =>
    intro cl hcl hattempted
    have hsteady := hmem hcl
    exact (he.2 cl hcl hattempted).right hsteady.cursorless he.1 hsteady.inside
  | _ => trivial

theorem Delivering.steady (h : s.Delivering cfg)
    (hhash : ∀ l : List C, l.length = ScrollBlockSize → cfg.hash l ≠ 0)
    (hdlp : cfg.dlpRegion.isSome = true → cfg.directFbptr = true) {e : FrameEvent C dir}
    (he : s.Orderly cfg e) :
    ∀ cl ∈ (s.step cfg e).clients, cl.Steady (s.step cfg e).size.region
      ((s.step cfg e).copyArea cfg) := by
  obtain ⟨⟨last, hsince, -⟩, hclients⟩ := h
  cases e with
  | draw region fresh => exact hclients
  | copy dest delta => exact hclients
  | setPixelBuffer size screen pb scrollHasher oldFb =>
    intro cl hcl
    obtain ⟨old, hold, rfl⟩ := List.mem_map.mp hcl
    refine FrameClient.steady_of_changed ⟨?_, (hclients old hold).cursorless.2⟩ rfl
      Finset.subset_union_right
    show (if _ then old.updates.damagedCursorRegion ∩ _ else old.updates.damagedCursorRegion) = ∅
    rw [(hclients old hold).cursorless.1, Finset.empty_inter, ite_self]
  | authSuccess image copypassed =>
    intro cl hcl
    rcases List.mem_append.mp hcl with hold | hnew
    · exact hclients cl hold
    · rw [List.mem_singleton.mp hnew]
      exact FrameClient.steady_of_changed ⟨rfl, rfl⟩ rfl (Finset.Subset.refl _)
  | removeSocket n => exact fun cl hcl => hclients cl (List.mem_of_mem_eraseIdx hcl)
  | setEncodings n encodings =>
    exact forall_mem_onClient hclients fun _ _ hcl => ⟨hcl.cursorless, hcl.copied, hcl.inside⟩
  | udpUpgrade n =>
    exact forall_mem_onClient hclients fun _ _ hcl => ⟨hcl.cursorless, hcl.copied, hcl.inside⟩
  | upgradeClientToUdp sameAddress =>
    exact forall_mem_upgradeClientToUdp hclients fun _ _ hcl =>
      ⟨hcl.cursorless, hcl.copied, hcl.inside⟩
  | udpDowngrade n =>
    exact forall_mem_onClient hclients fun _ _ hcl => ⟨hcl.cursorless, hcl.copied, hcl.inside⟩
  | framebufferUpdateRequest n r incremental =>
    refine forall_mem_onClient hclients fun cl hn hcl => ⟨hcl.cursorless, ?_, ?_⟩
    · refine Finset.Subset.trans ?_ hcl.copied
      unfold FrameClient.framebufferUpdateRequest
      dsimp only
      split <;> exact Finset.Subset.refl _
    · exact fun p hp x hx =>
        hcl.inside p hp x (FrameClient.plan_framebufferUpdateRequest (he cl hn) hp hx)
  | enableContinuousUpdates n enable r =>
    refine forall_mem_onClient hclients fun cl _ hcl => ?_
    unfold FrameClient.enableContinuousUpdates
    split
    · exact hcl
    · exact ⟨hcl.cursorless, hcl.copied, hcl.inside⟩
  | renderedCursorChange n need =>
    obtain rfl : need = false := he
    refine forall_mem_onClient hclients fun cl _ hcl => ⟨⟨hcl.cursorless.1, ?_⟩, hcl.copied,
      hcl.inside⟩
    exact (Bool.or_false _).trans hcl.cursorless.2
  | writeUpdate i =>
    have hsize : (s.step cfg (.writeUpdate i)).size = s.size := writeUpdate_size i
    rw [copyArea_eq hsize, hsize]
    rcases hsince.writeUpdate i hhash hdlp with
      ⟨hsame, -⟩ | ⟨ui, hui, hmap, -, htakes, hcopied⟩
    · intro cl hcl
      exact hclients cl (hsame ▸ hcl)
    · obtain ⟨hkeeps, -, horder⟩ := he ui hui
      intro cl hcl
      rw [step, hmap] at hcl
      obtain ⟨old, hold, rfl⟩ := List.mem_map.mp hcl
      exact (hclients old hold).addUpdate hcopied (htakes hkeeps).plan_mem
        (horder old hold).follows
  | writeFramebufferUpdate n i =>
    cases hn : s.clients[n]? with
    | none =>
      rw [step, writeFramebufferUpdate, hn]
      exact hclients
    | some cl =>
      have hcl := hclients cl (List.mem_of_getElem? hn)
      obtain ⟨after, hafter, heq⟩ := writeFramebufferUpdate_of_some cfg i hn
      have hsize : (s.step cfg (.writeFramebufferUpdate n i)).size = s.size := by
        rw [step, heq]
        rcases hafter with rfl | rfl
        · rfl
        · exact getPendingRegion_size i.blocked
      rw [copyArea_eq hsize, hsize, step, heq]
      intro cl' hcl'
      rcases List.mem_or_eq_of_mem_set hcl' with hold | rfl
      · exact hclients cl' hold
      · unfold clientUpdate
        split
        · next hattempted => exact (he.2 cl hn hattempted).steady he.1 hcl
        · exact hcl

theorem Delivering.step (h : s.Delivering cfg)
    (hhash : ∀ l : List C, l.length = ScrollBlockSize → cfg.hash l ≠ 0)
    (hdlp : cfg.dlpRegion.isSome = true → cfg.directFbptr = true) {e : FrameEvent C dir}
    (he : s.Orderly cfg e) : (s.step cfg e).Delivering cfg :=
  ⟨synced_step hhash hdlp h.1 (h.right he), h.steady hhash hdlp he⟩

omit [DecidableEq C] in
theorem attempted_of_request {cl : FrameClient C} (h : cl.updates.request ≠ ∅) : Attempted cl := by
  unfold Attempted
  unfold ClientUpdates.request at h
  split at h
  · next hon => exact Or.inr hon
  · exact Or.inl h

/-- An update is sent when nothing is pending, and leaves its client with the last frame. -/
theorem Delivering.sent_shown (h : s.Delivering cfg) {n : ℕ} {i : UpdateInput C}
    {cl : FrameClient C} (hn : s.clients[n]? = some cl)
    (he : s.Orderly cfg (.writeFramebufferUpdate n i)) {ui : UpdateInfo}
    (hsent : (s.dataUpdate cfg cl i).2 = .update ui) :
    ∃ last, s.SinceFrame cfg last ∧ (s.getPendingRegion i.blocked).2 = ∅ ∧
      ∀ p ∈ s.size.region, p ∉ (s.dataUpdate cfg cl i).1.updates.changed →
        s.execute cfg i ui cl.image p = cfg.shown s.size last p := by
  have hsteady := h.2 cl (List.mem_of_getElem? hn)
  obtain ⟨last, hsince, hclients⟩ := h.1
  obtain hkept | ⟨hreq, hsome, -, hupdates, hqueue⟩ :=
    @ClientUpdates.writeDataUpdate_kept_or_sent _ (s.updateContext cfg cl i) hsteady.cursorless
  · have hsame : (cl.updates.writeDataUpdate (s.updateContext cfg cl i)).2 = .update ui := hsent
    rcases hkept.2.2 with hnothing | ⟨-, hrefresh⟩
    · rw [hnothing] at hsame
      cases hsame
    · rw [hrefresh] at hsame
      cases hsame
  · have hgood := he.2 cl hn (attempted_of_request hreq)
    have hpending := hgood.pending_of_handed hsome
    have hnone : (s.updateContext cfg cl i).pending = ∅ := hpending
    rw [ClientUpdates.settled, if_pos hnone] at hupdates
    have hright := hsince.sends (hclients cl (List.mem_of_getElem? hn))
      (hgood.right hsteady.cursorless he.1 hsteady.inside)
    dsimp only at hright
    rw [hsent] at hright
    refine ⟨last, hsince, hpending, fun p hp hout => ?_⟩
    have hself : p ∈ (s.dataUpdate cfg cl i).1.plan p :=
      (ClientUpdates.plan_of_sent ((ClientUpdates.taken_copied hsteady.cursorless).trans
        (hgood.requested hreq)) hupdates hqueue).mpr ⟨hout, rfl⟩
    have hfree : p ∉ (s.dataUpdate cfg cl i).1.damagedCursorRegion := by
      have hcursor : (s.dataUpdate cfg cl i).1.Cursorless :=
        hsteady.cursorless.writeDataUpdate he.1
      rw [hcursor.1]
      exact Finset.notMem_empty p
    exact hright p hp p hself hfree

/-- **What a client shows after an update** that was sent to it. -/
theorem Delivering.sent (h : s.Delivering cfg) {n : ℕ} {i : UpdateInput C} {cl : FrameClient C}
    (hn : s.clients[n]? = some cl) (he : s.Orderly cfg (.writeFramebufferUpdate n i))
    {ui : UpdateInfo} (hsent : (s.dataUpdate cfg cl i).2 = .update ui) {p : Point}
    (hp : p ∈ s.size.region) (hout : p ∉ (s.dataUpdate cfg cl i).1.updates.changed) :
    s.execute cfg i ui cl.image p = s.getPixelBuffer cfg p := by
  obtain ⟨last, hsince, hpending, hshown⟩ := h.sent_shown hn he hsent
  rw [hsince.shown p hp (notMem_touched hp (by
    rw [hpending]
    exact Finset.notMem_empty p))]
  exact hshown p hp hout

end FrameServer

end KasmVNC.Rfb
