import KasmVNC.Rfb.ServerFrames

/-!
# What a frame hands over

Between two frames the comparer's tracker follows what is drawn. The update that a frame
hands to the clients turns the framebuffer of the last frame into that of this one, the
copies first and then the copied lines of scrolls, with two reservations: a line must not be
copied from a pixel whose own copy the comparison has dropped, and with a DLP region a line
must not be copied across its border.
-/

namespace KasmVNC.Rfb

open KasmVNC.Lib ComparingUpdateTracker

variable {C : Type*} {dir : ScrollDirection}

/-! ## Updates between images -/

namespace UpdateInfo

/-- Where an update has the content of a pixel from. The copied lines of scrolls come after
the copies. -/
def origin (ui : UpdateInfo) (p : Point) : Point :=
  ui.copy.origin (origins (copyMoves ui.copypassed) p)

/-- Outside its changed region, the update makes the new image of the old one. -/
def Takes (ui : UpdateInfo) (region : Region) (old new : Point → C) : Prop :=
  ∀ p ∈ region, p ∉ ui.changed → ui.origin p ∈ region ∧ new p = old (ui.origin p)

end UpdateInfo

theorem writtenBy_copyMoves {rects : List CopyPassRect} {p : Point} :
    WrittenBy (copyMoves rects) p ↔ p ∈ ClientUpdates.copypassDest rects := by
  rw [ClientUpdates.mem_copypassDest]
  constructor
  · rintro ⟨m, hm, hp⟩
    obtain ⟨c, hc, rfl⟩ := List.mem_map.mp hm
    exact ⟨c, hc, hp⟩
  · rintro ⟨c, hc, hp⟩
    exact ⟨_, List.mem_map_of_mem hc, hp⟩

theorem origins_of_notMem {rects : List CopyPassRect} {p : Point}
    (hp : p ∉ ClientUpdates.copypassDest rects) : origins (copyMoves rects) p = p :=
  origins_of_notWritten (mt writtenBy_copyMoves.mp hp)

/-! ## Copies on the framebuffer copy -/

/-- The copies of the tracker are executed at once on the framebuffer copy. -/
theorem applyCopied_eq {c : ComparingUpdateTracker C dir} {fb : PixelBuffer C} {old : Point → C}
    (h : c.applyCopied fb = .ok old) : old = move c.tracker.copy c.oldFb := by
  have hfold : ∀ (rects : List Rect) (f : Point → C),
      rects.foldlM (fun f r => copyRect fb.getRect r c.tracker.copyDelta f) f = .ok old →
        old = moves (rects.map fun r => ⟨Region.ofRect r, c.tracker.copyDelta⟩) f := by
    intro rects
    induction rects with
    | nil => exact fun f h => (Except.ok.inj h).symm
    | cons r rects ih =>
      intro f h
      rw [List.foldlM_cons] at h
      obtain ⟨g, hg, hrest⟩ := of_bind_ok h
      obtain rfl := copyRect_eq hg
      exact ih _ hrest
  exact (hfold _ _ h).trans (Region.moves_rectMoves c.tracker.copied c.tracker.copyDelta c.oldFb)

/-! ## What clients are shown -/

namespace FbSize

variable (size : FbSize)

theorem mem_region {p : Point} :
    p ∈ size.region ↔ (0 ≤ p.1 ∧ p.1 < size.width) ∧ 0 ≤ p.2 ∧ p.2 < size.height :=
  Region.mem_ofRect

/-- A pixel of the framebuffer lies in the buffer. -/
theorem linear_pixel (image : Point → C) {p : Point} (hp : p ∈ size.region) :
    linear size.width image (p.2.toNat * size.width + p.1.toNat) = image p ∧
      p.2.toNat * size.width + p.1.toNat < size.width * size.height := by
  obtain ⟨⟨hx, hx'⟩, hy, hy'⟩ := size.mem_region.mp hp
  have hcolumn : p.1.toNat < size.width := by omega
  have hrow : p.2.toNat + 1 ≤ size.height := by omega
  have hpoint : (((p.1.toNat : ℕ) : ℤ), ((p.2.toNat : ℕ) : ℤ)) = p :=
    Prod.ext (Int.toNat_of_nonneg hx) (Int.toNat_of_nonneg hy)
  refine ⟨(linear_apply image _ hcolumn).trans (congrArg image hpoint), ?_⟩
  calc p.2.toNat * size.width + p.1.toNat < p.2.toNat * size.width + size.width :=
        Nat.add_lt_add_left hcolumn _
    _ = (p.2.toNat + 1) * size.width := (Nat.succ_mul _ _).symm
    _ ≤ size.height * size.width := Nat.mul_le_mul_right _ hrow
    _ = size.width * size.height := Nat.mul_comm _ _

theorem buffer_pixel (image : Point → C) {p : Point} (hp : p ∈ size.region) :
    (size.buffer image).pixel p = image p :=
  (size.linear_pixel image hp).1

end FbSize

namespace FrameSettings

variable (cfg : FrameSettings C) (size : FbSize)

/-- The pixel is blacked out. -/
def Hides (p : Point) : Prop :=
  ∃ r ∈ cfg.dlpRegion, ∃ s ∈ (r.translateDLPRegion size.width size.height).writes cfg.black
    size.width size.height, s.Covers size.width (p.2.toNat * size.width + p.1.toNat)

instance (p : Point) : Decidable (cfg.Hides size p) :=
  inferInstanceAs (Decidable (∃ r ∈ cfg.dlpRegion, _))

/-- What clients are to see of an image. -/
def shown (image : Point → C) : Point → C := fun p =>
  if cfg.Hides size p then cfg.black else image p

variable {cfg size}

theorem shown_of_none (h : cfg.dlpRegion = none) (image : Point → C) :
    cfg.shown size image = image := by
  funext p
  refine if_neg ?_
  rintro ⟨r, hr, -⟩
  rw [h] at hr
  cases hr

theorem shown_congr {f g : Point → C} {p q : Point} (hsame : f p = g q)
    (hhides : cfg.Hides size p ↔ cfg.Hides size q) :
    cfg.shown size f p = cfg.shown size g q :=
  if_congr hhides rfl hsame

/-- The blacked out copy is what clients are to see. -/
theorem blackOut_eq_shown {r : DLPRegion} (h : cfg.dlpRegion = some r) (image : Point → C)
    {p : Point} (hp : p ∈ size.region) :
    FrameServer.blackOut cfg size r image p = cfg.shown size image p := by
  obtain ⟨hpixel, hlt⟩ := size.linear_pixel image hp
  unfold FrameServer.blackOut DLPEdges.blackOutPixels shown
  rw [foldl_write_uniform fun s hs => DLPEdges.writes_black hs, if_pos hlt, hpixel]
  refine if_congr ?_ rfl rfl
  constructor
  · exact fun hcovered => ⟨r, h, hcovered⟩
  · rintro ⟨r', hr', hcovered⟩
    obtain rfl : r = r' := Option.some.inj (h.symm.trans hr')
    exact hcovered

end FrameSettings

/-! ## Copies inside the framebuffer -/

namespace SimpleUpdateTracker

variable {t : SimpleUpdateTracker} {region : Region}

theorem touched_addCopied (t : SimpleUpdateTracker) (dest : Region) (delta : Point) :
    t.touched ∪ dest ⊆ (t.addCopied dest delta).touched := by
  unfold addCopied touched
  dsimp only
  split_ifs with hoff hnone hover hsmall
  · intro p hp
    simp only [addChanged, Finset.mem_union] at hp ⊢
    tauto
  · rw [hnone, Finset.union_empty]
  · intro p hp
    simp only [Finset.mem_union] at hp ⊢
    tauto
  · intro p hp
    simp only [Finset.mem_union] at hp ⊢
    tauto
  · intro p hp
    simp only [Finset.mem_union, Finset.mem_sdiff] at hp ⊢
    tauto

/-- The tracker's copies read and write in the region. -/
def CopiesInside (t : SimpleUpdateTracker) (region : Region) : Prop :=
  ∀ p ∈ t.copied, p ∈ region ∧ p - t.copyDelta ∈ region

theorem CopiesInside.mono {t' : SimpleUpdateTracker} (h : t.CopiesInside region)
    (hcopied : t'.copied ⊆ t.copied) (hdelta : t'.copyDelta = t.copyDelta) :
    t'.CopiesInside region := by
  intro p hp
  rw [hdelta]
  exact h p (hcopied hp)

theorem CopiesInside.enableCopyrect (h : t.CopiesInside region) (enable : Bool) :
    (t.enableCopyrect enable).CopiesInside region := by
  refine h.mono ?_ ?_
  · unfold SimpleUpdateTracker.enableCopyrect
    split
    · exact Finset.empty_subset _
    · exact Finset.Subset.refl _
  · unfold SimpleUpdateTracker.enableCopyrect
    split <;> rfl

theorem CopiesInside.getUpdateInfo (h : t.CopiesInside region) (clip : Region) :
    (t.getUpdateInfo clip).1.CopiesInside region :=
  h.mono Finset.sdiff_subset rfl

theorem CopiesInside.addCopied (h : t.CopiesInside region) {dest : Region} {delta : Point}
    (hdest : ∀ p ∈ dest, p ∈ region ∧ p - delta ∈ region) :
    (t.addCopied dest delta).CopiesInside region := by
  unfold SimpleUpdateTracker.addCopied
  dsimp only
  split_ifs with hoff hnone hover hsmall
  · exact h
  · exact h
  · exact h
  · exact hdest
  · -- the new copy reads what the old one has brought
    intro p hp
    rw [Region.mem_translate, Finset.mem_inter, Region.mem_translate, sub_neg_eq_add,
      sub_add_cancel] at hp
    refine ⟨(hdest p hp.1).1, ?_⟩
    rw [add_comm, ← sub_sub]
    exact (h _ hp.2).2

theorem Gated.getUpdateInfo (h : t.Gated) (clip : Region) : (t.getUpdateInfo clip).1.Gated := by
  rw [getUpdateInfo_eq_absorb]
  exact h.absorb ∅

/-- A copy inside the region has its sources there. -/
theorem CopiesInside.origin (h : t.CopiesInside region) {p : Point} (hp : p ∈ region) :
    t.copy.origin p ∈ region := by
  by_cases hcopied : p ∈ t.copied
  · rw [Move.origin_of_mem hcopied]
    exact (h p hcopied).2
  · rw [Move.origin_of_notMem hcopied]
    exact hp

end SimpleUpdateTracker

/-! ## What a comparison finds -/

/-- What the comparison finds makes the new framebuffer, unless a line is copied from a pixel
whose own copy was dropped. -/
theorem takes_compareInfo [DecidableEq C] {hash : List C → ℕ}
    (hhash : ∀ l : List C, l.length = ScrollBlockSize → hash l ≠ 0) (settings : ScrollSettings)
    {size : FbSize} {last pb : Point → C} (skipScrollDetection : Bool) (skipCursorArea : Region)
    {c : ComparingUpdateTracker C dir} (hsync : ∀ p ∈ size.region, p ∉ c.tracker.changed →
      pb p = last (c.tracker.copy.origin p))
    (hinside : c.tracker.CopiesInside size.region) (hlast : ∀ p ∈ size.region, c.oldFb p = last p) :
    let c' := (c.compareWith settings hash (size.buffer pb) skipScrollDetection skipCursorArea
      (move c.tracker.copy c.oldFb)).1
    ((∀ p ∈ size.region, p ∉ c'.tracker.changed →
        origins (copyMoves c'.copyPassRects) p ∈ c.tracker.copied →
          origins (copyMoves c'.copyPassRects) p ∉ c'.tracker.changed) →
      (FrameServer.compareInfo c' size).Takes size.region last pb) ∧
      ∀ p ∈ size.region, c'.oldFb p = pb p := by
  intro c'
  have hold : ∀ p ∈ size.region, move c.tracker.copy c.oldFb p = last (c.tracker.copy.origin p) :=
    fun p hp => hlast _ (hinside.origin hp)
  have hchanged : ∀ p ∈ Region.ofRect (size.buffer pb).getRect, p ∉ c.tracker.changed →
      move c.tracker.copy c.oldFb p = (size.buffer pb).pixel p := by
    intro p hp hout
    rw [hold p hp, size.buffer_pixel pb hp]
    exact (hsync p hp hout).symm
  obtain ⟨hcopies, hnew, -⟩ := compareWith_spec hhash settings (size.buffer pb) rfl
    skipScrollDetection skipCursorArea c hchanged
  refine ⟨fun hkeeps p hp hchanged => ?_, fun p hp => (hnew p hp).trans (size.buffer_pixel pb hp)⟩
  have hout : p ∉ c'.tracker.changed := fun hin => hchanged (Finset.mem_inter.mpr ⟨hin, hp⟩)
  obtain ⟨hsame, hin⟩ := hcopies p hp hout
  have hin : origins (copyMoves c'.copyPassRects) p ∈ size.region := hin
  have hkept := hkeeps p hp hout
  -- the copies that are left are those of the tracker, as far as lines read them
  have horigin : (FrameServer.compareInfo c' size).origin p =
      c.tracker.copy.origin (origins (copyMoves c'.copyPassRects) p) := by
    refine Move.origin_congr ⟨fun h => ?_, fun h => ?_⟩ rfl
    · exact (Finset.mem_sdiff.mp (Finset.mem_inter.mp h).1).1
    · exact Finset.mem_inter.mpr ⟨Finset.mem_sdiff.mpr ⟨h, hkept h⟩, hin⟩
  rw [horigin, ← size.buffer_pixel pb hp, ← hold _ hin]
  exact ⟨hinside.origin hin, hsame.symm⟩

/-! ## Since the last frame -/

namespace FrameServer

/-- What holds since the last frame, when the framebuffer was `last`. -/
structure SinceFrame (cfg : FrameSettings C) (s : FrameServer C dir) (last : Point → C) :
    Prop where
  inSync : InSync s.comparer.tracker last s.screen
  inside : s.comparer.tracker.CopiesInside s.size.region
  gated : s.comparer.tracker.Gated
  direct : cfg.directFbptr = true → s.pb = s.screen
  pb : ∀ p ∈ s.size.region, p ∉ s.comparer.tracker.touched → s.pb p = last p
  oldFb : s.comparer.firstCompare = false → ∀ p ∈ s.size.region, s.comparer.oldFb p = last p
  copyPassRects : s.comparer.copyPassRects = []
  shown : ∀ p ∈ s.size.region, p ∉ s.comparer.tracker.touched →
    s.getPixelBuffer cfg p = cfg.shown s.size last p

variable {cfg : FrameSettings C} {s : FrameServer C dir} {last : Point → C}

theorem SinceFrame.screen (h : s.SinceFrame cfg last) {p : Point}
    (hp : p ∉ s.comparer.tracker.touched) : s.screen p = last p :=
  h.inSync.of_kept (fun hc => hp (Finset.mem_union_left _ hc))
    fun hc => hp (Finset.mem_union_right _ hc)

/-- A new framebuffer: everything has changed. -/
theorem sinceFrame_new {s : FrameServer C dir} {scrollHasher : ScrollHasher C dir}
    {oldFb : Point → C} (hcomparer : s.comparer = .new s.size scrollHasher oldFb)
    (hdirect : cfg.directFbptr = true → s.pb = s.screen) : s.SinceFrame cfg s.screen := by
  have htouched : ∀ p ∈ s.size.region, p ∈ s.comparer.tracker.touched := by
    intro p hp
    rw [hcomparer]
    exact Finset.mem_union_left _ hp
  refine ⟨?_, ?_, ?_, hdirect, fun p hp hout => absurd (htouched p hp) hout, ?_, ?_,
    fun p hp hout => absurd (htouched p hp) hout⟩
  · rw [hcomparer, inSync_iff]
    exact fun p _ => (if_neg (Finset.notMem_empty p)).symm
  · rw [hcomparer]
    exact fun p hp => absurd hp (Finset.notMem_empty p)
  · rw [hcomparer]
    exact fun _ => rfl
  · rw [hcomparer]
    exact fun h => nomatch h
  · rw [hcomparer]
    rfl

theorem sinceFrame_start (size : FbSize) (screen pb : Point → C)
    (scrollHasher : ScrollHasher C dir) (oldFb : Point → C) :
    (start cfg size screen pb scrollHasher oldFb).SinceFrame cfg screen :=
  sinceFrame_new (s := start cfg size screen pb scrollHasher oldFb) rfl fun hdirect =>
    if_pos hdirect

theorem sinceFrame_setPixelBuffer (s : FrameServer C dir) (size : FbSize) (screen pb : Point → C)
    (scrollHasher : ScrollHasher C dir) (oldFb : Point → C) :
    (s.setPixelBuffer cfg size screen pb scrollHasher oldFb).SinceFrame cfg screen :=
  sinceFrame_new (s := s.setPixelBuffer cfg size screen pb scrollHasher oldFb) rfl fun hdirect =>
    if_pos hdirect

/-- Something is drawn where the tracker knows about it. -/
theorem SinceFrame.drawn (h : s.SinceFrame cfg last) {screen : Point → C}
    {t : SimpleUpdateTracker} (hsync : InSync t last screen)
    (hinside : t.CopiesInside s.size.region) (hgated : t.Gated)
    (htouched : s.comparer.tracker.touched ⊆ t.touched)
    (hsame : ∀ p, p ∉ t.touched → screen p = s.screen p) :
    SinceFrame cfg { s.drawn cfg screen with comparer := { s.comparer with tracker := t } }
      last where
  inSync := hsync
  inside := hinside
  gated := hgated
  direct := fun hdirect => if_pos hdirect
  oldFb := h.oldFb
  copyPassRects := h.copyPassRects
  pb := by
    intro p hp hout
    have hold : p ∉ s.comparer.tracker.touched := fun hin => hout (htouched hin)
    show (if cfg.directFbptr = true then screen else s.pb) p = last p
    split
    · rw [hsame p hout, h.screen hold]
    · exact h.pb p hp hold
  shown := by
    intro p hp hout
    have hold : p ∉ s.comparer.tracker.touched := fun hin => hout (htouched hin)
    have hpb : (if cfg.directFbptr = true then screen else s.pb) p = s.pb p := by
      split
      · next hdirect => rw [hsame p hout, h.direct hdirect]
      · rfl
    refine Eq.trans ?_ (h.shown p hp hold)
    unfold getPixelBuffer FrameServer.drawn
    dsimp only
    cases s.blackedpb with
    | none => split <;> exact hpb
    | some blacked =>
      split
      · rfl
      · exact hpb

theorem SinceFrame.draw (h : s.SinceFrame cfg last) (region : Region) (fresh : Point → C) :
    (s.draw cfg region fresh).SinceFrame cfg last := by
  refine h.drawn (t := s.comparer.tracker.addChanged region) (h.inSync.addChanged region fresh)
    h.inside h.gated ?_ fun p hp => ?_
  · rw [SimpleUpdateTracker.touched_addChanged]
    exact Finset.subset_union_left
  · rw [SimpleUpdateTracker.touched_addChanged, Finset.notMem_union] at hp
    exact paint_of_notMem hp.2

theorem SinceFrame.copy (h : s.SinceFrame cfg last) (dest : Region) (delta : Point) :
    (s.copy cfg dest delta).SinceFrame cfg last := by
  have htouched := SimpleUpdateTracker.touched_addCopied s.comparer.tracker
    (ClippingUpdateTracker.copyable s.size.rect dest delta) delta
  refine h.drawn (h.inSync.addCopied _ delta) (h.inside.addCopied fun p hp => ?_)
    (h.gated.addCopied _ delta) (Finset.subset_union_left.trans htouched) fun p hp => ?_
  · obtain ⟨⟨-, hin⟩, hsource⟩ := ClippingUpdateTracker.mem_copyable.mp hp
    exact ⟨hin, hsource⟩
  · have hout := fun hdest => hp (htouched (Finset.mem_union_right _ hdest))
    exact congrArg s.screen (Move.origin_of_notMem hout)

/-- Asking the comparer makes it forget the copies that have changed. -/
theorem SinceFrame.getPendingRegion (h : s.SinceFrame cfg last) (blocked : Bool) :
    (s.getPendingRegion blocked).1.SinceFrame cfg last := by
  unfold FrameServer.getPendingRegion
  split
  · exact h
  split
  · exact h
  · have htouched := SimpleUpdateTracker.touched_getUpdateInfo s.comparer.tracker s.size.region
    refine ⟨h.inSync.getUpdateInfo s.size.region, h.inside.getUpdateInfo s.size.region,
      h.gated.getUpdateInfo s.size.region, h.direct, fun p hp hout => ?_, h.oldFb,
      h.copyPassRects, fun p hp hout => ?_⟩
    · exact h.pb p hp (htouched ▸ hout)
    · exact h.shown p hp (htouched ▸ hout)

/-- The clients do not matter. -/
theorem SinceFrame.clients (h : s.SinceFrame cfg last) (clients : List (FrameClient C)) :
    SinceFrame cfg { s with clients := clients } last :=
  ⟨h.inSync, h.inside, h.gated, h.direct, h.pb, h.oldFb, h.copyPassRects, h.shown⟩

/-! ## Frames -/

/-- What a frame hands to the clients, if the comparison succeeds. -/
def frameInfo [DecidableEq C] (cfg : FrameSettings C) (s : FrameServer C dir) (i : FrameInput) :
    Option UpdateInfo :=
  let begun := s.beginFrame cfg i
  match begun.1.comparer.compare cfg.scroll cfg.hash (s.size.buffer begun.1.pb)
      i.skipScrollDetection i.cursorReg with
  | .error _ => none
  | .ok (c, altered) => some (if altered then compareInfo c s.size else begun.2)

/-- What a frame finds before the comparison. -/
theorem SinceFrame.beginFrame (h : s.SinceFrame cfg last) (i : FrameInput) :
    let begun := s.beginFrame cfg i
    let t := begun.1.comparer.tracker
    begun.2 = ⟨t.changed ∩ s.size.region, t.copied ∩ s.size.region, t.copyDelta, []⟩ ∧
      t.touched = s.comparer.tracker.touched ∧ InSync t last s.screen ∧
      t.CopiesInside s.size.region ∧ (∀ p ∈ t.copied, p ∉ t.changed) ∧
      (∀ p ∈ s.size.region, begun.1.pb p = s.screen p) ∧
      (cfg.directFbptr = true → begun.1.pb = s.screen) ∧
      (cfg.dlpRegion.isSome = true → t.copied = ∅) := by
  intro begun t
  let t₀ := if cfg.dlpRegion.isSome then s.comparer.tracker.enableCopyrect false
    else s.comparer.tracker
  have ht : t = (t₀.getUpdateInfo s.size.region).1 := rfl
  have htouched₀ : t₀.touched = s.comparer.tracker.touched := by
    unfold t₀
    split
    · exact SimpleUpdateTracker.touched_enableCopyrect _ _
    · rfl
  have hsync₀ : InSync t₀ last s.screen := by
    unfold t₀
    split
    · exact h.inSync.enableCopyrect false
    · exact h.inSync
  have hinside₀ : t₀.CopiesInside s.size.region := by
    unfold t₀
    split
    · exact h.inside.enableCopyrect false
    · exact h.inside
  have htouched : t.touched = s.comparer.tracker.touched := by
    rw [ht, SimpleUpdateTracker.touched_getUpdateInfo, htouched₀]
  refine ⟨?_, htouched, ht ▸ hsync₀.getUpdateInfo _, ht ▸ hinside₀.getUpdateInfo _, ?_, ?_, ?_, ?_⟩
  · show ({ (t₀.getUpdateInfo s.size.region).2 with
      copypassed := s.comparer.copyPassRects } : UpdateInfo) = _
    rw [h.copyPassRects]
    rfl
  · exact fun p hp => (Finset.mem_sdiff.mp hp).2
  · intro p hp
    show (if cfg.directFbptr then s.pb
      else paint (begun.2.changed ∪ begun.2.copied) s.screen s.pb) p = s.screen p
    split
    · next hdirect => rw [h.direct hdirect]
    · by_cases hgrabbed : p ∈ begun.2.changed ∪ begun.2.copied
      · exact paint_of_mem hgrabbed
      · have hout : p ∉ s.comparer.tracker.touched := by
          intro hin
          have hall : begun.2.changed ∪ begun.2.copied = t₀.touched ∩ s.size.region :=
            UpdateInfo.touched_getUpdateInfo t₀ s.size.region
          rw [hall, htouched₀] at hgrabbed
          exact hgrabbed (Finset.mem_inter.mpr ⟨hin, hp⟩)
        rw [paint_of_notMem hgrabbed, h.pb p hp hout, h.screen hout]
  · intro hdirect
    show (if cfg.directFbptr then s.pb else _) = s.screen
    rw [if_pos hdirect, h.direct hdirect]
  · intro hdlp
    have hoff : t₀ = s.comparer.tracker.enableCopyrect false := if_pos hdlp
    rw [ht]
    refine SimpleUpdateTracker.Gated.getUpdateInfo ?_ s.size.region ?_
    · rw [hoff]
      exact h.gated.enableCopyrect false
    · show t₀.copyEnabled = false
      rw [hoff]
      exact SimpleUpdateTracker.enableCopyrect_copyEnabled false

/-- Where clients may be sent copies: with a DLP region, nowhere. -/
def copyArea (cfg : FrameSettings C) (s : FrameServer C dir) : Region :=
  if cfg.dlpRegion.isSome then ∅ else s.size.region

/-- No line is copied from a pixel whose own copy the comparison has dropped. -/
def KeepsCopies (cfg : FrameSettings C) (s : FrameServer C dir) (i : FrameInput)
    (ui : UpdateInfo) : Prop :=
  ∀ p ∈ s.size.region, p ∉ ui.changed →
    origins (copyMoves ui.copypassed) p ∈ (s.beginFrame cfg i).2.copied →
      origins (copyMoves ui.copypassed) p ∈ ui.copied

/-- Without lines, what the frame begins with makes the new framebuffer. -/
theorem SinceFrame.takes_begun (h : s.SinceFrame cfg last) (i : FrameInput) :
    (s.beginFrame cfg i).2.Takes s.size.region last s.screen := by
  obtain ⟨hui, -, hsync, hinside, -⟩ := h.beginFrame i
  generalize (s.beginFrame cfg i).1.comparer.tracker = t at *
  rw [hui]
  intro p hp hchanged
  have hout : p ∉ t.changed := fun hin => hchanged (Finset.mem_inter.mpr ⟨hin, hp⟩)
  have horigin : (⟨t.copied ∩ s.size.region, t.copyDelta⟩ : Move Point).origin p =
      t.copy.origin p :=
    Move.origin_congr (by simp [SimpleUpdateTracker.copy, hp]) rfl
  have hsame : (⟨t.changed ∩ s.size.region, t.copied ∩ s.size.region, t.copyDelta, []⟩ :
      UpdateInfo).origin p = t.copy.origin p := horigin
  rw [hsame]
  exact ⟨hinside.origin hp, hsync p hout⟩

/-- The framebuffer that clients are sent, with a DLP region in the X server's own memory. -/
theorem SinceFrame.shown_begun (h : s.SinceFrame cfg last) (i : FrameInput)
    (hdlp : cfg.dlpRegion.isSome = true → cfg.directFbptr = true) :
    ∀ p ∈ s.size.region,
      (s.beginFrame cfg i).1.getPixelBuffer cfg p = cfg.shown s.size s.screen p := by
  intro p hp
  obtain ⟨-, -, -, -, -, hpb, -⟩ := h.beginFrame i
  cases hregion : cfg.dlpRegion with
  | none =>
    rw [FrameSettings.shown_of_none hregion, ← hpb p hp]
    unfold getPixelBuffer
    rw [hregion]
    rfl
  | some r =>
    have hblacked : (s.beginFrame cfg i).1.getPixelBuffer cfg p =
        blackOut cfg s.size r s.pb p := by
      unfold getPixelBuffer FrameServer.beginFrame
      rw [hregion]
      rfl
    rw [hblacked, h.direct (hdlp (by rw [hregion]; rfl))]
    exact FrameSettings.blackOut_eq_shown hregion s.screen hp

/-- The comparison of a frame fails only if nothing is handed over. -/
theorem SinceFrame.frame_failed (h : s.SinceFrame cfg last) (i : FrameInput)
    (hdlp : cfg.dlpRegion.isSome = true → cfg.directFbptr = true) :
    (s.beginFrame cfg i).1.SinceFrame cfg last := by
  have hshown := h.shown_begun i hdlp
  obtain ⟨-, htouched, hsync, hinside, -, hpb, hdirect, -⟩ := h.beginFrame i
  refine ⟨hsync, hinside, ?_, hdirect, fun p hp hout => ?_, ?_, h.copyPassRects,
    fun p hp hout => ?_⟩
  · show (SimpleUpdateTracker.getUpdateInfo _ s.size.region).1.Gated
    refine SimpleUpdateTracker.Gated.getUpdateInfo ?_ s.size.region
    split
    · exact h.gated.enableCopyrect false
    · exact h.gated
  · rw [htouched] at hout
    exact (hpb p hp).trans (h.screen hout)
  · intro hfirst
    exact h.oldFb (Bool.or_eq_false_iff.mp hfirst).1
  · rw [htouched] at hout
    exact (hshown p hp).trans (FrameSettings.shown_congr (h.screen hout) Iff.rfl)

variable [DecidableEq C]

/-- What the comparison leaves, and what it makes of the old framebuffer. -/
theorem SinceFrame.compare (h : s.SinceFrame cfg last) (i : FrameInput)
    (hhash : ∀ l : List C, l.length = ScrollBlockSize → cfg.hash l ≠ 0)
    {c : ComparingUpdateTracker C dir} {altered : Bool} {ui : UpdateInfo}
    (hcompare : (s.beginFrame cfg i).1.comparer.compare cfg.scroll cfg.hash
      (s.size.buffer (s.beginFrame cfg i).1.pb) i.skipScrollDetection i.cursorReg =
        .ok (c, altered))
    (hui : ui = if altered then compareInfo c s.size else (s.beginFrame cfg i).2) :
    (KeepsCopies cfg s i ui → ui.Takes s.size.region last s.screen) ∧
      (c.firstCompare = false → ∀ p ∈ s.size.region, c.oldFb p = s.screen p) ∧
      ui.copied ⊆ (s.beginFrame cfg i).2.copied := by
  have htakes := h.takes_begun i
  obtain ⟨hbegun, -, hsync, hinside, -, hpb, -⟩ := h.beginFrame i
  have holdFb : (s.beginFrame cfg i).1.comparer.firstCompare = false →
      ∀ p ∈ s.size.region, (s.beginFrame cfg i).1.comparer.oldFb p = last p := fun hfirst =>
    h.oldFb (Bool.or_eq_false_iff.mp hfirst).1
  have hdisabled : (s.beginFrame cfg i).1.comparer.enabled = false →
      (s.beginFrame cfg i).1.comparer.firstCompare = true := by
    intro hoff
    have hcomparing : i.comparing = false := hoff
    show (s.comparer.firstCompare || !i.comparing) = true
    rw [hcomparing]
    exact Bool.or_true _
  unfold KeepsCopies
  generalize s.beginFrame cfg i = begun at *
  unfold ComparingUpdateTracker.compare at hcompare
  split at hcompare
  · -- the comparer is switched off
    next hoff =>
      cases hcompare
      subst hui
      refine ⟨fun _ => htakes, fun hfirst => ?_, Finset.Subset.refl _⟩
      rw [hdisabled (by simpa using hoff)] at hfirst
      cases hfirst
  split at hcompare
  · -- the first comparison
    cases hcompare
    subst hui
    refine ⟨fun _ => htakes, fun _ p hp => ?_, Finset.Subset.refl _⟩
    exact (s.size.buffer_pixel _ hp).trans (hpb p hp)
  next hfirst =>
    obtain ⟨old, hold, hcompare⟩ := of_bind_ok hcompare
    obtain rfl := applyCopied_eq hold
    have hfound := takes_compareInfo hhash cfg.scroll i.skipScrollDetection i.cursorReg
      (fun p hp hout => (hpb p hp).trans (hsync p hout)) hinside (holdFb (by simpa using hfirst))
    have hpair := Except.ok.inj hcompare
    have hc : (compareWith cfg.scroll cfg.hash (s.size.buffer begun.1.pb) i.skipScrollDetection
        i.cursorReg begun.1.comparer (move begun.1.comparer.tracker.copy
          begun.1.comparer.oldFb)).1 = c := congrArg Prod.fst hpair
    have hcopied : c.tracker.copied = begun.1.comparer.tracker.copied := by
      rw [← hc]
      rfl
    dsimp only at hfound
    rw [hc] at hfound
    obtain ⟨hinfo, hnew⟩ := hfound
    refine ⟨fun hkeeps => ?_, fun _ p hp => (hnew p hp).trans (hpb p hp), ?_⟩
    · cases altered with
      | false =>
        subst hui
        exact htakes
      | true =>
        subst hui
        have hshown := hinfo fun p hp hout hread => by
          have hbegunCopied : origins (copyMoves c.copyPassRects) p ∈ begun.2.copied := by
            rw [hbegun]
            exact Finset.mem_inter.mpr ⟨hread, (hinside _ hread).1⟩
          have hkept := hkeeps p hp (fun hin => hout (Finset.mem_inter.mp hin).1) hbegunCopied
          exact (Finset.mem_sdiff.mp (Finset.mem_inter.mp hkept).1).2
        intro p hp hchanged
        obtain ⟨hin, hsame⟩ := hshown p hp hchanged
        exact ⟨hin, (hpb p hp).symm.trans hsame⟩
    · cases altered with
      | false =>
        subst hui
        exact Finset.Subset.refl _
      | true =>
        subst hui
        rw [hbegun]
        intro p hp
        obtain ⟨hleft, hin⟩ := Finset.mem_inter.mp hp
        exact Finset.mem_inter.mpr ⟨hcopied ▸ (Finset.mem_sdiff.mp hleft).1, hin⟩

/-- **What a frame hands over.** It makes the framebuffer of this frame of the one before. -/
theorem SinceFrame.writeUpdate (h : s.SinceFrame cfg last) (i : FrameInput)
    (hhash : ∀ l : List C, l.length = ScrollBlockSize → cfg.hash l ≠ 0)
    (hdlp : cfg.dlpRegion.isSome = true → cfg.directFbptr = true) :
    (s.writeUpdate cfg i).clients = s.clients ∧ (s.writeUpdate cfg i).SinceFrame cfg last ∨
      ∃ ui, frameInfo cfg s i = some ui ∧
        (s.writeUpdate cfg i).clients = s.clients.map (·.addUpdate ui) ∧
        (s.writeUpdate cfg i).SinceFrame cfg s.screen ∧
        (KeepsCopies cfg s i ui → ui.Takes s.size.region last s.screen) ∧
        ui.copied ⊆ s.copyArea cfg := by
  have hfailed := h.frame_failed i hdlp
  have hshown := h.shown_begun i hdlp
  obtain ⟨hbegun, -, -, -, -, hpb, hdirect, hcopied⟩ := h.beginFrame i
  unfold FrameServer.writeUpdate frameInfo
  dsimp only
  cases hcompare : (s.beginFrame cfg i).1.comparer.compare cfg.scroll cfg.hash
      (s.size.buffer (s.beginFrame cfg i).1.pb) i.skipScrollDetection i.cursorReg with
  | error e => exact Or.inl ⟨rfl, hfailed⟩
  | ok result =>
    obtain ⟨c, altered⟩ := result
    obtain ⟨htakes, holdFb, hsubset⟩ := h.compare i hhash hcompare rfl
    refine Or.inr ⟨_, rfl, rfl, ⟨?_, ?_, ?_, hdirect, fun p hp _ => hpb p hp, ?_, rfl,
      fun p hp _ => hshown p hp⟩, htakes, hsubset.trans ?_⟩
    · exact inSync_clear c.tracker s.screen
    · exact fun p hp => absurd hp (Finset.notMem_empty p)
    · exact SimpleUpdateTracker.Gated.clear c.tracker
    · exact holdFb
    · rw [hbegun]
      unfold copyArea
      split
      · next hsome =>
          rw [hcopied hsome, Finset.empty_inter]
      · exact Finset.inter_subset_right

end FrameServer

end KasmVNC.Rfb
