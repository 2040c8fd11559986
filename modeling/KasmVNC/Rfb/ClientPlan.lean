import KasmVNC.Lib.Plan
import KasmVNC.Rfb.FrameSound

/-!
# What clients are going to show

A client may be several frames behind. What its connection has collected for it is a plan: pixels
that will be sent, copies, and after these the queued lines of scrolls. As long as each step keeps
the plan right, it leads from what the client shows to the framebuffer of the last frame. Pixels
that may show the rendered cursor are not accounted for.
-/

namespace KasmVNC.Rfb

open KasmVNC.Lib

variable {C : Type*} {dir : ScrollDirection}

/-! ## Plans -/

namespace UpdateInfo

/-- Where an update has each pixel from. -/
def plan (ui : UpdateInfo) : Plan Point := fun p =>
  if p ∈ ui.changed then none else some (ui.origin p)

variable {ui : UpdateInfo} {p : Point}

theorem plan_of_mem (h : p ∈ ui.changed) : ui.plan p = none := if_pos h

theorem plan_of_notMem (h : p ∉ ui.changed) : ui.plan p = some (ui.origin p) := if_neg h

theorem mem_plan {x : Point} : x ∈ ui.plan p ↔ p ∉ ui.changed ∧ ui.origin p = x := by
  by_cases h : p ∈ ui.changed
  · rw [plan_of_mem h]
    exact ⟨fun hx => absurd hx (Option.not_mem_none x), fun hx => absurd h hx.1⟩
  · rw [plan_of_notMem h, Option.mem_some_iff]
    exact ⟨fun hx => ⟨h, hx⟩, fun hx => hx.2⟩

/-- With a DLP region, what is copied is hidden as it was. -/
def KeepsHidden (cfg : FrameSettings C) (size : FbSize) (ui : UpdateInfo) : Prop :=
  ∀ p ∈ size.region, p ∉ ui.changed → (cfg.Hides size p ↔ cfg.Hides size (ui.origin p))

theorem Takes.shows {cfg : FrameSettings C} {size : FbSize} {last screen : Point → C}
    (h : ui.Takes size.region last screen) (hhidden : ui.KeepsHidden cfg size) :
    ui.plan.Shows size.region ∅ (cfg.shown size last) (cfg.shown size screen) := by
  intro p hp x hx _
  obtain ⟨hchanged, rfl⟩ := mem_plan.mp hx
  exact (FrameSettings.shown_congr (h p hp hchanged).2 (hhidden p hp hchanged)).symm

theorem Takes.plan_mem {region : Region} {last screen : Point → C}
    (h : ui.Takes region last screen) : ∀ p ∈ region, ∀ q ∈ ui.plan p, q ∈ region := by
  intro p hp q hq
  obtain ⟨hchanged, rfl⟩ := mem_plan.mp hq
  exact (h p hp hchanged).1

end UpdateInfo

namespace ClientUpdates

/-- All that is pending, as an update. The copies that have changed are dropped. -/
def pending (c : ClientUpdates) : UpdateInfo :=
  ⟨c.updates.changed, c.updates.copied \ c.updates.changed, c.updates.copyDelta, c.copypassed⟩

def plan (c : ClientUpdates) : Plan Point := c.pending.plan

end ClientUpdates

namespace FrameClient

/-- The plan leads from what the client shows to the framebuffer. -/
def Shows (cfg : FrameSettings C) (size : FbSize) (last : Point → C) (cl : FrameClient C) : Prop :=
  cl.updates.plan.Shows size.region cl.updates.damagedCursorRegion cl.image (cfg.shown size last)

/-- With what the frame hands over, the plan is the one before and then the frame. -/
def Follows (region : Region) (ui : UpdateInfo) (cl : FrameClient C) : Prop :=
  Plan.Within region cl.updates.damagedCursorRegion (cl.addUpdate ui).updates.plan
    (cl.updates.plan.andThen ui.plan)

variable {cfg : FrameSettings C} {size : FbSize} {last screen : Point → C} {cl : FrameClient C}
  {ui : UpdateInfo}

theorem addUpdate_damaged :
    (cl.addUpdate ui).updates.damagedCursorRegion = cl.updates.damagedCursorRegion := by
  unfold addUpdate ClientUpdates.addCopypassed ClientUpdates.addChanged
  dsimp only
  split <;> rfl

theorem Shows.addUpdate (h : cl.Shows cfg size last) (htakes : ui.Takes size.region last screen)
    (hhidden : ui.KeepsHidden cfg size) (hfollows : cl.Follows size.region ui) :
    (cl.addUpdate ui).Shows cfg size screen := by
  have hthen := Plan.Shows.andThen h (htakes.shows hhidden) htakes.plan_mem
  unfold Shows
  rw [addUpdate_damaged]
  exact hthen.within hfollows

/-- Everything will be sent. -/
theorem shows_of_changed (h : size.region ⊆ cl.updates.updates.changed) :
    cl.Shows cfg size last :=
  Plan.shows_of_none (fun _ hp => UpdateInfo.plan_of_mem (h hp)) _ _

end FrameClient

/-! ## Updates of a client -/

section Update

/-- Where the cursor is drawn. -/
def UpdateInput.cursorArea (i : UpdateInput C) : Region :=
  if i.needRenderedCursor then Region.ofRect i.cursorRect else ∅

/-- What the encode manager is given to send. -/
def DataUpdate.info (i : UpdateInput C) : DataUpdate → UpdateInfo
  | .nothing => ⟨∅, ∅, (0, 0), []⟩
  | .update ui => ui
  | .losslessRefresh req =>
    if i.video then ⟨∅, ∅, (0, 0), []⟩ else ⟨i.refresh ∩ i.lossyRegion ∩ req, ∅, (0, 0), []⟩

namespace FrameServer

variable {cfg : FrameSettings C} {s : FrameServer C dir} {i : UpdateInput C} {ui : UpdateInfo}
  {image : Point → C} {p : Point}

theorem execute_of_notMem (h : p ∉ ui.changed) :
    s.execute cfg i ui image p = image (ui.origin p) := by
  have hcursor : p ∉ ui.changed ∩ i.cursorArea := fun hin => h (Finset.mem_inter.mp hin).1
  refine (paint_of_notMem hcursor).trans ((paint_of_notMem h).trans ?_)
  rw [moves_apply]
  rfl

theorem execute_of_mem (h : p ∈ ui.changed) (hcursor : p ∉ i.cursorArea) :
    s.execute cfg i ui image p = s.getPixelBuffer cfg p := by
  have hout : p ∉ ui.changed ∩ i.cursorArea := fun hin => hcursor (Finset.mem_inter.mp hin).2
  exact (paint_of_notMem hout).trans (paint_of_mem h)

theorem execute_empty : s.execute cfg i ⟨∅, ∅, (0, 0), []⟩ image = image := by
  funext p
  rw [execute_of_notMem (Finset.notMem_empty p)]
  exact congrArg image (Move.origin_of_notMem (Finset.notMem_empty p))

theorem encoded_eq (u : DataUpdate) :
    s.encoded cfg i image u = s.execute cfg i (u.info i) image := by
  cases u with
  | nothing => exact execute_empty.symm
  | update ui => rfl
  | losslessRefresh req =>
    unfold encoded DataUpdate.info
    dsimp only
    split
    · exact execute_empty.symm
    · rfl

/-- The pixels of the framebuffer that a client may be sent: what has been drawn since the last
frame is not one of them, nor is what is under the cursor. -/
def sendable (s : FrameServer C dir) (i : UpdateInput C) : Region :=
  (s.size.region \ s.comparer.tracker.touched) \ i.cursorArea

/-- After the update, the plan is right for what the client shows then. -/
def UpdateRight (cfg : FrameSettings C) (s : FrameServer C dir) (i : UpdateInput C)
    (cl : FrameClient C) : Prop :=
  let u := s.dataUpdate cfg cl i
  Plan.Sends s.size.region cl.updates.damagedCursorRegion u.1.damagedCursorRegion (s.sendable i)
    (u.2.info i).plan cl.updates.plan u.1.plan

variable {last : Point → C} {cl : FrameClient C}

theorem SinceFrame.sends (h : s.SinceFrame cfg last) (hcl : cl.Shows cfg s.size last)
    (hright : s.UpdateRight cfg i cl) :
    let u := s.dataUpdate cfg cl i
    u.1.plan.Shows s.size.region u.1.damagedCursorRegion
      (s.execute cfg i (u.2.info i) cl.image) (cfg.shown s.size last) := by
  refine Plan.Shows.sends hcl hright (fun x y hy => ?_) fun x hx hnone => ?_
  · obtain ⟨hchanged, rfl⟩ := UpdateInfo.mem_plan.mp hy
    exact execute_of_notMem hchanged
  · have hsent : x ∈ ((s.dataUpdate cfg cl i).2.info i).changed := by
      by_contra hout
      rw [UpdateInfo.plan_of_notMem hout] at hnone
      cases hnone
    obtain ⟨hframe, hcursor⟩ := Finset.mem_sdiff.mp hx
    obtain ⟨hin, htouched⟩ := Finset.mem_sdiff.mp hframe
    rw [execute_of_mem hsent hcursor]
    exact h.shown x hin htouched

theorem SinceFrame.clientUpdate (h : s.SinceFrame cfg last) (hcl : cl.Shows cfg s.size last)
    (hright : Attempted cl → s.UpdateRight cfg i cl) :
    (s.clientUpdate cfg i cl).Shows cfg s.size last := by
  unfold FrameServer.clientUpdate
  split
  · next hattempted =>
      have hsends := h.sends hcl (hright hattempted)
      dsimp only at hsends ⊢
      unfold FrameClient.Shows
      rw [encoded_eq]
      exact hsends
  · exact hcl

end FrameServer

end Update

/-! ## Runs -/

namespace FrameServer

/-- The step keeps the plans right. -/
def Right [DecidableEq C] (cfg : FrameSettings C) (s : FrameServer C dir) :
    FrameEvent C dir → Prop
  | .framebufferUpdateRequest n r incremental => ∀ cl ∈ s.clients[n]?,
      Plan.Within s.size.region cl.updates.damagedCursorRegion
        (cl.framebufferUpdateRequest r incremental).updates.plan cl.updates.plan
  | .writeUpdate i => ∀ ui ∈ frameInfo cfg s i, KeepsCopies cfg s i ui ∧
      ui.KeepsHidden cfg s.size ∧ ∀ cl ∈ s.clients, cl.Follows s.size.region ui
  | .writeFramebufferUpdate n i => ∀ cl ∈ s.clients[n]?, Attempted cl → s.UpdateRight cfg i cl
  | _ => True

/-- The plans lead to the framebuffer of the last frame. -/
def Synced (cfg : FrameSettings C) (s : FrameServer C dir) : Prop :=
  ∃ last, s.SinceFrame cfg last ∧ ∀ cl ∈ s.clients, cl.Shows cfg s.size last

variable {cfg : FrameSettings C} {s : FrameServer C dir}

theorem forall_mem_onClient {P : FrameClient C → Prop} {n : ℕ}
    {f : FrameClient C → FrameClient C} (h : ∀ cl ∈ s.clients, P cl)
    (hf : ∀ cl ∈ s.clients[n]?, P cl → P (f cl)) : ∀ cl ∈ (s.onClient n f).clients, P cl := by
  intro cl hcl
  obtain ⟨m, hm⟩ := List.mem_iff_getElem?.mp hcl
  rw [onClient, List.getElem?_modify] at hm
  obtain ⟨old, hold, hnew⟩ := Option.map_eq_some_iff.mp hm
  have hmem := h old (List.mem_of_getElem? hold)
  split at hnew
  · next heq =>
      subst heq hnew
      exact hf old hold hmem
  · subst hnew
    exact hmem

variable {last : Point → C}

theorem SinceFrame.onClient (h : s.SinceFrame cfg last) (n : ℕ)
    (f : FrameClient C → FrameClient C) : (s.onClient n f).SinceFrame cfg last :=
  h.clients _

/-- A step that changes nothing that the plans are about. -/
theorem synced_onClient (h : s.Synced cfg) (n : ℕ) {f : FrameClient C → FrameClient C}
    (hf : ∀ cl last, cl.Shows cfg s.size last → (f cl).Shows cfg s.size last) :
    (s.onClient n f).Synced cfg := by
  obtain ⟨last, hsince, hclients⟩ := h
  exact ⟨last, hsince.onClient n f, forall_mem_onClient hclients fun cl _ => hf cl last⟩

theorem getPendingRegion_size (blocked : Bool) : (s.getPendingRegion blocked).1.size = s.size := by
  unfold getPendingRegion
  split
  · rfl
  · split <;> rfl

/-- The server is what asking the comparer leaves, but for the client. -/
theorem writeFramebufferUpdate_of_some (cfg : FrameSettings C) {n : ℕ} (i : UpdateInput C)
    {cl : FrameClient C} (hn : s.clients[n]? = some cl) : ∃ after : FrameServer C dir,
      (after = s ∨ after = (s.getPendingRegion i.blocked).1) ∧
        s.writeFramebufferUpdate cfg n i =
          { after with clients := s.clients.set n (s.clientUpdate cfg i cl) } := by
  unfold writeFramebufferUpdate
  rw [hn]
  dsimp only
  split
  · exact ⟨_, Or.inr rfl, rfl⟩
  · exact ⟨_, Or.inl rfl, rfl⟩

theorem synced_writeFramebufferUpdate (h : s.Synced cfg) {n : ℕ} {i : UpdateInput C}
    (hright : ∀ cl ∈ s.clients[n]?, Attempted cl → s.UpdateRight cfg i cl) :
    (s.writeFramebufferUpdate cfg n i).Synced cfg := by
  obtain ⟨last, hsince, hclients⟩ := h
  cases hn : s.clients[n]? with
  | none =>
    unfold writeFramebufferUpdate
    rw [hn]
    exact ⟨last, hsince, hclients⟩
  | some cl =>
    obtain ⟨after, hafter, heq⟩ := writeFramebufferUpdate_of_some cfg i hn
    have hsize : after.size = s.size := by
      rcases hafter with rfl | rfl
      · rfl
      · exact getPendingRegion_size i.blocked
    have hsince' : after.SinceFrame cfg last := by
      rcases hafter with rfl | rfl
      · exact hsince
      · exact hsince.getPendingRegion i.blocked
    rw [heq]
    refine ⟨last, hsince'.clients _, fun cl' hcl' => ?_⟩
    show cl'.Shows cfg after.size last
    rw [hsize]
    rcases List.mem_or_eq_of_mem_set hcl' with hold | rfl
    · exact hclients cl' hold
    · exact hsince.clientUpdate (hclients cl (List.mem_of_getElem? hn)) (hright cl hn)

variable [DecidableEq C]

theorem writeUpdate_size (i : FrameInput) : (s.writeUpdate cfg i).size = s.size := by
  unfold writeUpdate
  dsimp only
  split <;> rfl

theorem synced_step (hhash : ∀ l : List C, l.length = ScrollBlockSize → cfg.hash l ≠ 0)
    (hdlp : cfg.dlpRegion.isSome = true → cfg.directFbptr = true) (h : s.Synced cfg)
    {e : FrameEvent C dir} (he : s.Right cfg e) : (s.step cfg e).Synced cfg := by
  cases e with
  | draw region fresh =>
    obtain ⟨last, hsince, hclients⟩ := h
    exact ⟨last, hsince.draw region fresh, hclients⟩
  | copy dest delta =>
    obtain ⟨last, hsince, hclients⟩ := h
    exact ⟨last, hsince.copy dest delta, hclients⟩
  | setPixelBuffer size screen pb scrollHasher oldFb =>
    refine ⟨screen, sinceFrame_setPixelBuffer s size screen pb scrollHasher oldFb, ?_⟩
    intro cl hcl
    obtain ⟨old, -, rfl⟩ := List.mem_map.mp hcl
    exact FrameClient.shows_of_changed Finset.subset_union_right
  | authSuccess image copypassed =>
    obtain ⟨last, hsince, hclients⟩ := h
    refine ⟨last, hsince.clients _, fun cl hcl => ?_⟩
    rcases List.mem_append.mp hcl with hold | hnew
    · exact hclients cl hold
    · rw [List.mem_singleton.mp hnew]
      exact FrameClient.shows_of_changed (Finset.Subset.refl _)
  | removeSocket n =>
    obtain ⟨last, hsince, hclients⟩ := h
    exact ⟨last, hsince.clients _, fun cl hcl => hclients cl (List.mem_of_mem_eraseIdx hcl)⟩
  | setEncodings n encodings => exact synced_onClient h n fun _ _ hcl => hcl
  | udpUpgrade n => exact synced_onClient h n fun _ _ hcl => hcl
  | upgradeClientToUdp sameAddress =>
    obtain ⟨last, hsince, hclients⟩ := h
    exact ⟨last, hsince.clients _, forall_mem_upgradeClientToUdp hclients fun _ _ hcl => hcl⟩
  | udpDowngrade n => exact synced_onClient h n fun _ _ hcl => hcl
  | framebufferUpdateRequest n r incremental =>
    obtain ⟨last, hsince, hclients⟩ := h
    refine ⟨last, hsince.onClient n _, forall_mem_onClient hclients fun cl hn hcl => ?_⟩
    exact Plan.Shows.within hcl (he cl hn)
  | enableContinuousUpdates n enable r =>
    refine synced_onClient h n fun cl _ hcl => ?_
    unfold FrameClient.enableContinuousUpdates
    split
    · exact hcl
    · exact hcl
  | renderedCursorChange n need => exact synced_onClient h n fun _ _ hcl => hcl
  | writeUpdate i =>
    obtain ⟨last, hsince, hclients⟩ := h
    rcases hsince.writeUpdate i hhash hdlp with
      ⟨hsame, hfailed⟩ | ⟨ui, hui, hmap, hnew, htakes, -⟩
    · refine ⟨last, hfailed, fun cl hcl => ?_⟩
      rw [step, writeUpdate_size]
      exact hclients cl (hsame ▸ hcl)
    · obtain ⟨hkeeps, hhidden, hfollows⟩ := he ui hui
      refine ⟨s.screen, hnew, fun cl hcl => ?_⟩
      rw [step, hmap] at hcl
      obtain ⟨old, hold, rfl⟩ := List.mem_map.mp hcl
      rw [step, writeUpdate_size]
      exact (hclients old hold).addUpdate (htakes hkeeps) hhidden (hfollows old hold)
  | writeFramebufferUpdate n i => exact synced_writeFramebufferUpdate h he

end FrameServer

end KasmVNC.Rfb
