import KasmVNC.Rfb.CopyRectAllowed
import KasmVNC.Rfb.FrameDelivery

/-!
# Delivery without scroll detection

With the default settings no scrolls are looked for and no full frames are sent over UDP. Without
a rendered cursor nothing else depends on the order of the wire, so every update that is sent
leaves its client with the framebuffer, and with a DLP region with the blacked out one.
-/

namespace KasmVNC.Rfb

open KasmVNC.Lib ClientUpdates ComparingUpdateTracker

variable {C : Type*} {dir : ScrollDirection}

/-! ## The hash is not used -/

section Hash

variable [DecidableEq C] {settings : ScrollSettings} (hash hash' : List C → ℕ)

theorem compareBlock_hash (fb : PixelBuffer C) (cursor : Region) (block : Rect)
    (st : CompareState C dir) :
    compareBlock hash fb false cursor block st = compareBlock hash' fb false cursor block st := by
  unfold compareBlock
  split
  · rfl
  · simp only [Bool.not_false, Bool.true_or, if_true]

theorem compareBlocks_hash (fb : PixelBuffer C) (cursor : Region) (r : Rect)
    (st : CompareState C dir) :
    compareBlocks hash fb false cursor r st = compareBlocks hash' fb false cursor r st := by
  have hsame : (fun (st : CompareState C dir) block => compareBlock hash fb false cursor block st) =
      fun st block => compareBlock hash' fb false cursor block st := by
    funext st block
    exact compareBlock_hash hash hash' fb cursor block st
  unfold compareBlocks
  rw [hsame]

theorem compareRects_hash (fb : PixelBuffer C) (cursor : Region) (rects : List Rect)
    (st : CompareState C dir) :
    compareRects hash fb false cursor rects st = compareRects hash' fb false cursor rects st := by
  have hsame : (fun (st : CompareState C dir) r => compareRect hash fb false cursor r st) =
      fun st r => compareRect hash' fb false cursor r st := by
    funext st r
    unfold compareRect
    dsimp only
    simp only [compareBlocks_hash hash hash']
  unfold compareRects
  rw [hsame]

theorem compare_hash (hoff : settings.detectScrolling = false) (fb : PixelBuffer C) (skip : Bool)
    (cursor : Region) (c : ComparingUpdateTracker C dir) :
    c.compare settings hash fb skip cursor = c.compare settings hash' fb skip cursor := by
  have hwith : ∀ old, c.compareWith settings hash fb skip cursor old =
      c.compareWith settings hash' fb skip cursor old := by
    intro old
    unfold compareWith
    dsimp only
    rw [wantsScroll_off hoff, if_neg Bool.false_ne_true, if_neg Bool.false_ne_true,
      compareRects_hash hash hash']
  unfold ComparingUpdateTracker.compare
  simp only [hwith]

/-- Where scrolls are not looked for no lines are found. -/
theorem compareBlock_lines (fb : PixelBuffer C) (cursor : Region) (block : Rect)
    (st : CompareState C dir) :
    (compareBlock hash fb false cursor block st).copyPassRects = st.copyPassRects := by
  unfold compareBlock
  split
  · split <;> rfl
  · rfl

theorem compareBlocks_lines (fb : PixelBuffer C) (cursor : Region) (r : Rect)
    (st : CompareState C dir) :
    (compareBlocks hash fb false cursor r st).copyPassRects = st.copyPassRects := by
  have hfold : ∀ (bs : List Rect) (st : CompareState C dir),
      (bs.foldl (fun st block => compareBlock hash fb false cursor block st) st).copyPassRects =
        st.copyPassRects := by
    intro bs
    induction bs with
    | nil => exact fun _ => rfl
    | cons b bs ih =>
      intro st
      rw [List.foldl_cons, ih, compareBlock_lines]
  unfold compareBlocks
  dsimp only
  split
  · exact hfold _ _
  · exact hfold _ _

theorem compareRects_lines (fb : PixelBuffer C) (cursor : Region) (rects : List Rect)
    (st : CompareState C dir) (h : st.copyPassRects = []) :
    (compareRects hash fb false cursor rects st).copyPassRects = [] := by
  unfold compareRects
  induction rects generalizing st with
  | nil => exact h
  | cons r rects ih =>
    rw [List.foldl_cons]
    refine ih _ ?_
    unfold compareRect
    dsimp only
    split_ifs
    · exact (compareBlocks_lines hash fb cursor _ st).trans h
    · exact (compareBlocks_lines hash fb cursor _ st).trans h
    · exact h

end Hash

/-- The settings with a hash that is never zero. -/
def FrameSettings.rehash (cfg : FrameSettings C) : FrameSettings C :=
  { cfg with hash := fun _ => 1 }

/-- No cursor is rendered, and a client that comes in has not been handed any lines. -/
def FrameEvent.Cursorless : FrameEvent C dir → Prop
  | .authSuccess _ copypassed => copypassed = []
  | .renderedCursorChange _ need => need = false
  | .writeFramebufferUpdate _ i => i.needRenderedCursor = false
  | _ => True

instance : ∀ e : FrameEvent C dir, Decidable e.Cursorless
  | .authSuccess _ copypassed => inferInstanceAs (Decidable (copypassed = []))
  | .renderedCursorChange _ need => inferInstanceAs (Decidable (need = false))
  | .writeFramebufferUpdate _ i => inferInstanceAs (Decidable (i.needRenderedCursor = false))
  | .draw .. | .copy .. | .setPixelBuffer .. | .removeSocket _ | .setEncodings .. | .udpUpgrade _
  | .upgradeClientToUdp _ | .udpDowngrade _ | .framebufferUpdateRequest ..
  | .enableContinuousUpdates .. | .writeUpdate _ => inferInstanceAs (Decidable True)

namespace FrameServer

variable {cfg : FrameSettings C} {s : FrameServer C dir} {last : Point → C}

theorem step_rehash [DecidableEq C] (hoff : cfg.scroll.detectScrolling = false)
    (s : FrameServer C dir) (e : FrameEvent C dir) : s.step cfg e = s.step cfg.rehash e := by
  cases e with
  | writeUpdate i =>
    have hbegin : s.beginFrame cfg.rehash i = s.beginFrame cfg i := rfl
    show s.writeUpdate cfg i = s.writeUpdate cfg.rehash i
    unfold writeUpdate
    dsimp only
    rw [hbegin, compare_hash cfg.hash cfg.rehash.hash hoff]
    rfl
  | _ => rfl

/-! ## Frames -/

/-- No lines of scrolls are queued. -/
def LineFree (s : FrameServer C dir) : Prop := ∀ cl ∈ s.clients, cl.updates.copypassed = []

/-- A frame hands over no lines, and drops no copies but those that have changed. With a DLP
region it has no copies. -/
theorem SinceFrame.frameInfo [DecidableEq C] (h : s.SinceFrame cfg last)
    (hoff : cfg.scroll.detectScrolling = false) (i : FrameInput) :
    ∀ ui ∈ frameInfo cfg s i, ui.copypassed = [] ∧ KeepsCopies cfg s i ui ∧
      (cfg.dlpRegion.isSome = true → ui.copied = ∅) := by
  obtain ⟨hbegun, -, -, -, -, -, -, hdlp⟩ := h.beginFrame i
  have hnone : (s.beginFrame cfg i).1.comparer.copyPassRects = [] := h.copyPassRects
  have hkeeps : ∀ ui : UpdateInfo, ui.copypassed = [] →
      (∀ p ∈ s.size.region, p ∉ ui.changed → p ∈ (s.beginFrame cfg i).2.copied → p ∈ ui.copied) →
        KeepsCopies cfg s i ui := by
    intro ui hlines hcopies p hp hout
    rw [hlines]
    exact hcopies p hp hout
  have hbegin : (s.beginFrame cfg i).2.copypassed = [] ∧
      KeepsCopies cfg s i (s.beginFrame cfg i).2 ∧
      (cfg.dlpRegion.isSome = true → (s.beginFrame cfg i).2.copied = ∅) := by
    have hlines : (s.beginFrame cfg i).2.copypassed = [] := by rw [hbegun]
    refine ⟨hlines, hkeeps _ hlines fun _ _ _ hin => hin, fun hsome => ?_⟩
    rw [hbegun]
    dsimp only
    rw [hdlp hsome, Finset.empty_inter]
  intro ui hui
  unfold FrameServer.frameInfo at hui
  dsimp only at hui
  cases hcompare : (s.beginFrame cfg i).1.comparer.compare cfg.scroll cfg.hash
      (s.size.buffer (s.beginFrame cfg i).1.pb) i.skipScrollDetection i.cursorReg with
  | error e =>
    rw [hcompare] at hui
    cases hui
  | ok result =>
    obtain ⟨c, altered⟩ := result
    rw [hcompare] at hui
    obtain rfl := Option.some.inj hui
    cases altered with
    | false => exact hbegin
    | true =>
      -- the regions were altered, so there was a comparison
      unfold ComparingUpdateTracker.compare at hcompare
      split at hcompare
      · cases hcompare
      split at hcompare
      · cases hcompare
      obtain ⟨old, -, hcompare⟩ := of_bind_ok hcompare
      have hc := congrArg Prod.fst (Except.ok.inj hcompare)
      dsimp only at hc
      have hlines : c.copyPassRects = [] := by
        rw [← hc]
        unfold compareWith
        dsimp only
        rw [wantsScroll_off hoff]
        exact compareRects_lines _ _ _ _ _ rfl
      have hcopied : c.tracker.copied = (s.beginFrame cfg i).1.comparer.tracker.copied := by
        rw [← hc]
        rfl
      refine ⟨hlines, hkeeps _ hlines fun p hp hout hin => ?_, fun hsome => ?_⟩
      · rw [hbegun] at hin
        refine Finset.mem_inter.mpr ⟨Finset.mem_sdiff.mpr ⟨?_, fun hchanged => ?_⟩, hp⟩
        · rw [hcopied]
          exact (Finset.mem_inter.mp hin).1
        · exact hout (Finset.mem_inter.mpr ⟨hchanged, hp⟩)
      · show (c.tracker.copied \ c.tracker.changed) ∩ s.size.region = ∅
        rw [hcopied, hdlp hsome, Finset.empty_sdiff, Finset.empty_inter]

/-! ## Runs -/

/-- No cursor is rendered, and as long as clients may be sent copies requests are for the whole
framebuffer. A client that comes in has not been handed any lines. -/
def WholeRequests (cfg : FrameSettings C) (s : FrameServer C dir) : FrameEvent C dir → Prop
  | .authSuccess _ copypassed => copypassed = []
  | .framebufferUpdateRequest n r _ => cfg.dlpRegion.isSome = true ∨ ∀ cl ∈ s.clients[n]?,
      s.size.region ⊆ Region.ofRect (r.intersect ⟨(0, 0), (cl.cp.width, cl.cp.height)⟩)
  | .renderedCursorChange _ need => need = false
  | .writeFramebufferUpdate n i => i.needRenderedCursor = false ∧ (cfg.dlpRegion.isSome = true ∨
      ∀ cl ∈ s.clients[n]?, cl.updates.request ≠ ∅ → s.size.region ⊆ cl.updates.request)
  | _ => True

instance (cfg : FrameSettings C) (s : FrameServer C dir) :
    ∀ e : FrameEvent C dir, Decidable (s.WholeRequests cfg e)
  | .authSuccess _ copypassed => inferInstanceAs (Decidable (copypassed = []))
  | .framebufferUpdateRequest n r _ =>
    inferInstanceAs (Decidable (cfg.dlpRegion.isSome = true ∨ ∀ cl ∈ s.clients[n]?,
      s.size.region ⊆ Region.ofRect (r.intersect ⟨(0, 0), (cl.cp.width, cl.cp.height)⟩)))
  | .renderedCursorChange _ need => inferInstanceAs (Decidable (need = false))
  | .writeFramebufferUpdate n i =>
    inferInstanceAs (Decidable (i.needRenderedCursor = false ∧ (cfg.dlpRegion.isSome = true ∨
      ∀ cl ∈ s.clients[n]?, cl.updates.request ≠ ∅ → s.size.region ⊆ cl.updates.request)))
  | .draw .. | .copy .. | .setPixelBuffer .. | .removeSocket _ | .setEncodings .. | .udpUpgrade _
  | .upgradeClientToUdp _ | .udpDowngrade _ | .enableContinuousUpdates .. | .writeUpdate _ =>
    inferInstanceAs (Decidable True)

/-- Nothing is hidden, or nothing is copied. -/
theorem keepsHidden_of_plain {ui : UpdateInfo} (hlines : ui.copypassed = [])
    (hcopied : cfg.dlpRegion.isSome = true → ui.copied = ∅) : ui.KeepsHidden cfg s.size := by
  intro p _ _
  cases hdlp : cfg.dlpRegion with
  | none =>
    have hnot : ∀ q, ¬ cfg.Hides s.size q := by
      rintro q ⟨r, hr, -⟩
      rw [hdlp] at hr
      cases hr
    exact iff_of_false (hnot p) (hnot _)
  | some r =>
    have hsame : ui.origin p = p := by
      unfold UpdateInfo.origin UpdateInfo.copy
      rw [hlines, hcopied (by rw [hdlp]; rfl)]
      exact Move.origin_of_notMem (Finset.notMem_empty _)
    rw [hsame]

theorem wholeRequests_rehash (s : FrameServer C dir) (e : FrameEvent C dir) :
    s.WholeRequests cfg e = s.WholeRequests cfg.rehash e := by
  cases e <;> rfl

variable [DecidableEq C]

/-- Without scroll detection and full frames, the steps are those that keep the plans right. -/
theorem Delivering.orderly (h : s.Delivering cfg) (hfree : s.LineFree)
    (hoff : cfg.scroll.detectScrolling = false) (hfrequency : cfg.udpFullFrameFrequency = 0)
    {e : FrameEvent C dir} (he : s.WholeRequests cfg e) : s.Orderly cfg e := by
  have hcopied : cfg.dlpRegion.isSome = true → ∀ cl ∈ s.clients, cl.updates.updates.copied = ∅ := by
    intro hdlp cl hcl
    have hin := (h.2 cl hcl).copied
    unfold copyArea at hin
    rw [if_pos hdlp] at hin
    exact Finset.subset_empty.mp hin
  cases e with
  | framebufferUpdateRequest n r incremental =>
    intro cl hcl
    rcases he with hdlp | hwhole
    · exact Or.inr (Or.inl (hcopied hdlp cl (List.mem_of_getElem? hcl)))
    · exact Or.inr (Or.inr (hwhole cl hcl))
  | renderedCursorChange n need => exact he
  | writeUpdate i =>
    obtain ⟨last, hsince, -⟩ := h.1
    intro ui hui
    obtain ⟨hlines, hkeeps, hnone⟩ := hsince.frameInfo hoff i ui hui
    refine ⟨hkeeps, keepsHidden_of_plain hlines hnone, fun cl hcl p _ hout => ?_⟩
    · obtain ⟨-, -, hchanged, hqueue⟩ := @FrameClient.addUpdate_queue _ cl ui
      have hnone : (cl.addUpdate ui).updates.copypassed = [] := by
        rcases hqueue with ⟨-, hsame⟩ | ⟨hsome, -⟩
        · exact hsame.trans hlines
        · exact absurd (hfree cl hcl) hsome
      rw [hnone]
      exact ⟨⟨fun hin => hout (hchanged (Finset.mem_union_left _ hin)), fun _ => hout⟩,
        fun hsome => absurd (hfree cl hcl) hsome⟩
  | writeFramebufferUpdate n i =>
    refine ⟨he.1, fun cl hcl _ => ⟨fun hreq => ?_, fun _ p _ hout => ?_, fun _ => ?_⟩⟩
    · rcases he.2 with hdlp | hwhole
      · rw [hcopied hdlp cl (List.mem_of_getElem? hcl)]
        exact Finset.empty_subset _
      · have hin := (h.2 cl (List.mem_of_getElem? hcl)).copied
        refine hin.trans (Finset.Subset.trans ?_ (hwhole cl hcl hreq))
        unfold copyArea
        split
        · exact Finset.empty_subset _
        · exact Finset.Subset.refl _
    · rw [hfree cl (List.mem_of_getElem? hcl)]
      exact fun hin => hout (Finset.mem_union_right _ hin)
    · refine if_neg fun hdue => ?_
      have hcounts : countsUdpFrames (s.updateContext cfg cl i) = true := hdue.1
      unfold countsUdpFrames at hcounts
      have hzero : (s.updateContext cfg cl i).udpFullFrameFrequency = 0 := hfrequency
      rw [hzero] at hcounts
      cases hcounts
  | _ => trivial

theorem LineFree.step (hfree : s.LineFree) (h : s.Delivering cfg)
    (hhash : ∀ l : List C, l.length = ScrollBlockSize → cfg.hash l ≠ 0)
    (hdlp : cfg.dlpRegion.isSome = true → cfg.directFbptr = true)
    (hoff : cfg.scroll.detectScrolling = false) {e : FrameEvent C dir}
    (he : s.WholeRequests cfg e) : (s.step cfg e).LineFree := by
  have hupdated : ∀ {n : ℕ} (f : FrameClient C → FrameClient C),
      (∀ cl, (f cl).updates.copypassed = cl.updates.copypassed) → (s.onClient n f).LineFree :=
    fun f hf => forall_mem_onClient hfree fun cl _ hcl => (hf cl).trans hcl
  cases e with
  | draw region fresh => exact hfree
  | copy dest delta => exact hfree
  | setPixelBuffer size screen pb scrollHasher oldFb =>
    intro cl hcl
    obtain ⟨old, hold, rfl⟩ := List.mem_map.mp hcl
    exact hfree old hold
  | authSuccess image copypassed =>
    intro cl hcl
    rcases List.mem_append.mp hcl with hold | hnew
    · exact hfree cl hold
    · rw [List.mem_singleton.mp hnew]
      exact he
  | removeSocket n => exact fun cl hcl => hfree cl (List.mem_of_mem_eraseIdx hcl)
  | setEncodings n encodings => exact hupdated _ fun _ => rfl
  | udpUpgrade n => exact hupdated _ fun _ => rfl
  | upgradeClientToUdp sameAddress =>
    exact forall_mem_upgradeClientToUdp hfree fun _ _ hcl => hcl
  | udpDowngrade n => exact hupdated _ fun _ => rfl
  | framebufferUpdateRequest n r incremental => exact hupdated _ fun _ => rfl
  | enableContinuousUpdates n enable r =>
    refine hupdated _ fun cl => ?_
    unfold FrameClient.enableContinuousUpdates
    split <;> rfl
  | renderedCursorChange n need => exact hupdated _ fun _ => rfl
  | writeUpdate i =>
    obtain ⟨last, hsince, -⟩ := h.1
    rcases hsince.writeUpdate i hhash hdlp with ⟨hsame, -⟩ | ⟨ui, hui, hmap, -⟩
    · exact fun cl hcl => hfree cl (hsame ▸ hcl)
    · obtain ⟨hlines, -⟩ := hsince.frameInfo hoff i ui hui
      intro cl hcl
      rw [FrameServer.step, hmap] at hcl
      obtain ⟨old, hold, rfl⟩ := List.mem_map.mp hcl
      rcases (@FrameClient.addUpdate_queue _ old ui).2.2.2 with ⟨-, hsame⟩ | ⟨hsome, -⟩
      · exact hsame.trans hlines
      · exact absurd (hfree old hold) hsome
  | writeFramebufferUpdate n i =>
    intro cl hcl
    rcases writeFramebufferUpdate_clients cfg s n i hcl with hold | ⟨old, hn, rfl⟩
    · exact hfree cl hold
    · have hnone := hfree old (List.mem_of_getElem? hn)
      unfold clientUpdate
      split
      · rcases @writeDataUpdate_kept_or_sent _ (s.updateContext cfg old i)
          (h.2 old (List.mem_of_getElem? hn)).cursorless with
          ⟨-, hsame, -⟩ | ⟨-, -, -, -, hsent⟩
        · exact hsame.trans hnone
        · exact hsent
      · exact hnone

section Runs

variable {size : FbSize} {screen pb : Point → C} {scrollHasher : ScrollHasher C dir}
  {oldFb : Point → C} {es : List (FrameEvent C dir)} {n : ℕ} {i : UpdateInput C}

theorem delivering_lineFree (hhash : ∀ l : List C, l.length = ScrollBlockSize → cfg.hash l ≠ 0)
    (hdlp : cfg.dlpRegion.isSome = true → cfg.directFbptr = true)
    (hoff : cfg.scroll.detectScrolling = false) (hfrequency : cfg.udpFullFrameFrequency = 0)
    (h : Guarded (FrameServer.step cfg) (WholeRequests cfg)
      (start cfg size screen pb scrollHasher oldFb) es) :
    let s := run (FrameServer.step cfg) (start cfg size screen pb scrollHasher oldFb) es
    s.Delivering cfg ∧ s.LineFree := by
  refine run_invariant (I := fun s => s.Delivering cfg ∧ s.LineFree) (fun s e hs he => ?_) ?_ h
  · exact ⟨hs.1.step hhash hdlp (hs.1.orderly hs.2 hoff hfrequency he),
      hs.2.step hs.1 hhash hdlp hoff he⟩
  · exact ⟨⟨⟨screen, sinceFrame_start size screen pb scrollHasher oldFb, fun cl hcl =>
      absurd hcl List.not_mem_nil⟩, fun cl hcl => absurd hcl List.not_mem_nil⟩, fun cl hcl =>
        absurd hcl List.not_mem_nil⟩

/-- What a client shows after an update that was sent to it, and what of it is black. -/
def ShownAfterUpdate (cfg : FrameSettings C) (s : FrameServer C dir) (n : ℕ)
    (i : UpdateInput C) : Prop :=
  ∀ cl ui, s.clients[n]? = some cl → (s.dataUpdate cfg cl i).2 = .update ui →
    ∀ p ∈ s.size.region, p ∉ (s.dataUpdate cfg cl i).1.updates.changed →
      s.execute cfg i ui cl.image p = s.getPixelBuffer cfg p ∧
        (cfg.Hides s.size p → s.execute cfg i ui cl.image p = cfg.black)

theorem shownAfterUpdate_of_hash
    (hhash : ∀ l : List C, l.length = ScrollBlockSize → cfg.hash l ≠ 0)
    (hdlp : cfg.dlpRegion.isSome = true → cfg.directFbptr = true)
    (hoff : cfg.scroll.detectScrolling = false) (hfrequency : cfg.udpFullFrameFrequency = 0)
    (h : Guarded (FrameServer.step cfg) (WholeRequests cfg)
      (start cfg size screen pb scrollHasher oldFb) (es ++ [.writeFramebufferUpdate n i])) :
    ShownAfterUpdate cfg
      (run (FrameServer.step cfg) (start cfg size screen pb scrollHasher oldFb) es) n i := by
  intro cl ui hn hsent p hp hout
  obtain ⟨hes, hlast, -⟩ := guarded_append.mp h
  obtain ⟨hgood, hfree⟩ := delivering_lineFree hhash hdlp hoff hfrequency hes
  have horderly := hgood.orderly hfree hoff hfrequency hlast
  obtain ⟨last, -, -, hblack⟩ := hgood.sent_shown hn horderly hsent
  refine ⟨hgood.sent hn horderly hsent hp hout, fun hhides => ?_⟩
  exact (hblack p hp hout).trans (if_pos hhides)

omit [DecidableEq C] in
theorem shownAfterUpdate_rehash (s : FrameServer C dir) (n : ℕ) (i : UpdateInput C) :
    ShownAfterUpdate cfg.rehash s n i ↔ ShownAfterUpdate cfg s n i := by
  have hdata : ∀ cl, s.dataUpdate cfg.rehash cl i = s.dataUpdate cfg cl i := fun _ => rfl
  have hexecute : s.execute cfg.rehash i = s.execute cfg i := rfl
  have hbuffer : s.getPixelBuffer cfg.rehash = s.getPixelBuffer cfg := rfl
  have hhides : cfg.rehash.Hides s.size = cfg.Hides s.size := rfl
  have hblack : cfg.rehash.black = cfg.black := rfl
  unfold ShownAfterUpdate
  rw [hexecute, hbuffer, hhides, hblack]
  simp only [hdata]

theorem shownAfterUpdate_run (hdlp : cfg.dlpRegion.isSome = true → cfg.directFbptr = true)
    (hoff : cfg.scroll.detectScrolling = false) (hfrequency : cfg.udpFullFrameFrequency = 0)
    (h : Guarded (FrameServer.step cfg) (WholeRequests cfg)
      (start cfg size screen pb scrollHasher oldFb) (es ++ [.writeFramebufferUpdate n i])) :
    ShownAfterUpdate cfg
      (run (FrameServer.step cfg) (start cfg size screen pb scrollHasher oldFb) es) n i := by
  -- the hash may be taken for one that is never zero
  have hstep : @FrameServer.step C dir cfg _ = @FrameServer.step C dir cfg.rehash _ := by
    funext s e
    exact step_rehash hoff s e
  have hwhole : WholeRequests cfg = @WholeRequests C dir cfg.rehash := by
    funext s e
    exact wholeRequests_rehash s e
  have hstart : start cfg size screen pb scrollHasher oldFb =
      start cfg.rehash size screen pb scrollHasher oldFb := rfl
  have hhash : ∀ l : List C, l.length = ScrollBlockSize → cfg.rehash.hash l ≠ 0 :=
    fun _ _ => Nat.one_ne_zero
  rw [hstep, hwhole, hstart] at h
  rw [hstep, hstart]
  exact (shownAfterUpdate_rehash _ n i).mp (shownAfterUpdate_of_hash hhash hdlp hoff hfrequency h)

end Runs

/-- The left one of two pixels is light. -/
def leftPixel : Point → Bool := fun p => decide (p.1 = 0)

/-- **Updates are delivered.** Without a DLP region, for every order of drawing, copies, frames
and requests, whatever updates were skipped. -/
theorem updates_delivered (hdlp : cfg.dlpRegion = none)
    (hoff : cfg.scroll.detectScrolling = false) (hfrequency : cfg.udpFullFrameFrequency = 0)
    (size : FbSize) (screen pb : Point → C) (scrollHasher : ScrollHasher C dir) (oldFb : Point → C)
    {es : List (FrameEvent C dir)} {n : ℕ} {i : UpdateInput C}
    (h : Guarded (FrameServer.step cfg) (WholeRequests cfg)
      (start cfg size screen pb scrollHasher oldFb) (es ++ [.writeFramebufferUpdate n i])) :
    let s := run (FrameServer.step cfg) (start cfg size screen pb scrollHasher oldFb) es
    ∀ cl ui, s.clients[n]? = some cl → (s.dataUpdate cfg cl i).2 = .update ui →
      ∀ p ∈ s.size.region, p ∉ (s.dataUpdate cfg cl i).1.updates.changed →
        s.execute cfg i ui cl.image p = s.pb p := by
  have hdirect : cfg.dlpRegion.isSome = true → cfg.directFbptr = true := by
    rw [hdlp]
    exact fun hsome => absurd hsome Bool.false_ne_true
  have hshown := shownAfterUpdate_run hdirect hoff hfrequency h
  intro s cl ui hn hsent p hp hout
  have hbuffer : s.getPixelBuffer cfg = s.pb := by
    unfold getPixelBuffer
    rw [hdlp]
    rfl
  rw [(hshown cl ui hn hsent p hp hout).1, hbuffer]

/-- A client that has CopyRect in its list is shown what was copied. -/
theorem updates_delivered_two :
    let s := run (FrameServer.step plainSettings)
      (start plainSettings twoPixels leftPixel leftPixel noHashes darkImage)
      (.authSuccess darkImage [] :: .setEncodings 0 [encodingCopyRect] :: copiedPixel.dropLast)
    ∃ cl ui, s.clients[0]? = some cl ∧ (s.dataUpdate plainSettings cl quietUpdate).2 = .update ui ∧
      ui.copyRects ≠ [] ∧ s.pb (1, 0) = true ∧
        s.execute plainSettings quietUpdate ui cl.image (1, 0) = s.pb (1, 0) := by
  intro s
  have hsent : ∀ cl ∈ s.clients[0]?,
      (s.dataUpdate plainSettings cl quietUpdate).2.copyRects ≠ [] ∧
        (1, 0) ∉ (s.dataUpdate plainSettings cl quietUpdate).1.updates.changed := by decide
  obtain ⟨cl, hcl⟩ := Option.isSome_iff_exists.mp (by decide : s.clients[0]?.isSome = true)
  obtain ⟨hcopies, hout⟩ := hsent cl hcl
  cases hui : (s.dataUpdate plainSettings cl quietUpdate).2 with
  | update ui =>
    rw [hui] at hcopies
    exact ⟨cl, ui, hcl, hui, hcopies, by decide, updates_delivered rfl rfl rfl twoPixels leftPixel
      leftPixel noHashes darkImage (by decide) cl ui hcl hui (1, 0) (by decide) hout⟩
  | nothing =>
    rw [hui] at hcopies
    exact absurd rfl hcopies
  | losslessRefresh req =>
    rw [hui] at hcopies
    exact absurd rfl hcopies

/-- The left column is hidden. -/
def hiddenLeft : FrameSettings Bool :=
  ⟨some ⟨false, 1, 0, 0, 0, 0, 0, 0, 0⟩, false, false, 0, ⟨false, 100⟩, fun _ => 0, true⟩

end FrameServer

end KasmVNC.Rfb
