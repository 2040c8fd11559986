import KasmVNC.Rfb.RectCount

/-!
# The tiles of a changed region

The rectangles of a region are cut into tiles that are neither too wide nor too large for an
encoder. The tiles are a partition of the region, and there are as many as
`computeNumRects` has announced.
-/

namespace KasmVNC.Rfb

open KasmVNC.Lib

/-! ## Cutting a rectangle -/

/-- The tiles of two nested loops with steps of their own. -/
def Rect.cut (sw sh : ℤ) (r : Rect) : List Rect :=
  (strides sh r.tl.2 r.br.2).flatMap fun y => (strides sw r.tl.1 r.br.1).map fun x =>
    ⟨(x, y), (min (x + sw) r.br.1, min (y + sh) r.br.2)⟩

section Cut

variable {sw sh : ℤ} {r t : Rect}

theorem Rect.mem_cut : t ∈ r.cut sw sh ↔
    ∃ x ∈ strides sw r.tl.1 r.br.1, ∃ y ∈ strides sh r.tl.2 r.br.2,
      t = ⟨(x, y), (min (x + sw) r.br.1, min (y + sh) r.br.2)⟩ := by
  simp only [cut, List.mem_flatMap, List.mem_map]
  constructor
  · rintro ⟨y, hy, x, hx, rfl⟩
    exact ⟨x, hx, y, hy, rfl⟩
  · rintro ⟨x, hx, y, hy, rfl⟩
    exact ⟨y, hy, x, hx, rfl⟩

/-- Together they are the rectangle. -/
theorem Rect.exists_mem_cut (hsw : 0 < sw) (hsh : 0 < sh) {p : Point} :
    (∃ t ∈ r.cut sw sh, p ∈ Region.ofRect t) ↔ p ∈ Region.ofRect r := by
  constructor
  · rintro ⟨t, ht, hp⟩
    obtain ⟨x, hx, y, hy, rfl⟩ := mem_cut.mp ht
    obtain ⟨⟨hx, -⟩, -⟩ := mem_strides hsw hx
    obtain ⟨⟨hy, -⟩, -⟩ := mem_strides hsh hy
    rw [Region.mem_ofRect] at hp ⊢
    simp only [lt_min_iff] at hp
    omega
  · intro hp
    obtain ⟨⟨hleft, hright⟩, htop, hbottom⟩ := Region.mem_ofRect.mp hp
    obtain ⟨x, hx, hxp, hpx⟩ := exists_mem_strides hsw hleft hright
    obtain ⟨y, hy, hyp, hpy⟩ := exists_mem_strides hsh htop hbottom
    refine ⟨_, mem_cut.mpr ⟨x, hx, y, hy, rfl⟩, Region.mem_ofRect.mpr ?_⟩
    exact ⟨⟨hxp, lt_min hpx hright⟩, hyp, lt_min hpy hbottom⟩

theorem Rect.cut_disjoint (hsw : 0 < sw) (hsh : 0 < sh) (r : Rect) :
    (r.cut sw sh).Pairwise fun s t => Disjoint (Region.ofRect s) (Region.ofRect t) := by
  refine List.pairwise_flatMap.mpr ⟨fun y _ => ?_, (strides_sorted hsh _ _).imp ?_⟩
  · refine List.pairwise_map.mpr ((strides_sorted hsw _ _).imp fun {x x'} hx => ?_)
    refine Finset.disjoint_left.mpr fun p hp hp' => ?_
    simp only [Region.mem_ofRect, lt_min_iff] at hp hp'
    omega
  · intro y y' hy s hs t ht
    obtain ⟨x, -, rfl⟩ := List.mem_map.mp hs
    obtain ⟨x', -, rfl⟩ := List.mem_map.mp ht
    refine Finset.disjoint_left.mpr fun p hp hp' => ?_
    simp only [Region.mem_ofRect, lt_min_iff] at hp hp'
    omega

/-- No tile is larger than the steps. -/
theorem Rect.size_of_mem_cut (hsw : 0 < sw) (hsh : 0 < sh) (ht : t ∈ r.cut sw sh) :
    (0 < t.width ∧ t.width ≤ sw) ∧ 0 < t.height ∧ t.height ≤ sh := by
  obtain ⟨x, hx, y, hy, rfl⟩ := mem_cut.mp ht
  obtain ⟨⟨-, hx⟩, -⟩ := mem_strides hsw hx
  obtain ⟨⟨-, hy⟩, -⟩ := mem_strides hsh hy
  simp only [width, height]
  omega

end Cut

/-! ## The tiles of `writeRects` -/

namespace EncodeManager

variable (ctx : EncodeContext) (m : EncodeManager)

/-- A rectangle as it is, or cut. -/
theorem subRects_cases {r : Rect} (hr : r.tl.1 < r.br.1) :
    (m.unsplit ctx r = true ∧ m.subRects ctx r = [r]) ∨
      ∃ sw sh, (0 < sw ∧ sw ≤ SubRectMaxWidth) ∧ (0 < sh ∧ sw * sh ≤ SubRectMaxArea) ∧
        m.subRects ctx r = r.cut sw sh := by
  by_cases hunsplit : m.unsplit ctx r = true
  · exact Or.inl ⟨hunsplit, if_pos hunsplit⟩
  · obtain ⟨hsw, hsh⟩ := subRect_pos hr
    refine Or.inr ⟨subWidth r, subHeight r, ⟨hsw, ?_⟩, ⟨hsh, ?_⟩, if_neg hunsplit⟩
    · unfold subWidth
      split
      · assumption
      · exact le_rfl
    · exact Int.mul_ediv_self_le hsw.ne'

theorem mem_subRects {r : Rect} (hr : r.tl.1 < r.br.1) {p : Point} :
    (∃ t ∈ m.subRects ctx r, p ∈ Region.ofRect t) ↔ p ∈ Region.ofRect r := by
  rcases m.subRects_cases ctx hr with ⟨-, heq⟩ | ⟨sw, sh, ⟨hsw, -⟩, ⟨hsh, -⟩, heq⟩
  · rw [heq]
    simp
  · rw [heq]
    exact Rect.exists_mem_cut hsw hsh

theorem subRects_disjoint {r : Rect} (hr : r.tl.1 < r.br.1) :
    (m.subRects ctx r).Pairwise fun s t => Disjoint (Region.ofRect s) (Region.ofRect t) := by
  rcases m.subRects_cases ctx hr with ⟨-, heq⟩ | ⟨sw, sh, ⟨hsw, -⟩, ⟨hsh, -⟩, heq⟩
  · rw [heq]
    exact List.pairwise_singleton _ _
  · rw [heq]
    exact Rect.cut_disjoint hsw hsh r

/-- Outside of video mode no tile is too large. -/
theorem size_of_mem_subRects (hvideo : m.legacyVideo ctx = false) {r t : Rect}
    (hr : r.tl.1 < r.br.1) (ht : t ∈ m.subRects ctx r) :
    t.width ≤ SubRectMaxWidth ∧ t.width * t.height ≤ SubRectMaxArea := by
  rcases m.subRects_cases ctx hr with
    ⟨hunsplit, heq⟩ | ⟨sw, sh, ⟨hsw, hmax⟩, ⟨hsh, harea⟩, heq⟩
  · rw [heq, List.mem_singleton] at ht
    subst ht
    rw [unsplit, hvideo, Bool.false_and, Bool.or_false, Bool.and_eq_true, decide_eq_true_iff,
      decide_eq_true_iff] at hunsplit
    exact ⟨hunsplit.2.le, hunsplit.1.le⟩
  · rw [heq] at ht
    obtain ⟨⟨-, hwidth⟩, hheight, hheight'⟩ := Rect.size_of_mem_cut hsw hsh ht
    exact ⟨hwidth.trans hmax, (Int.mul_le_mul hwidth hheight' hheight.le hsw.le).trans harea⟩

/-- **The tiles of a region.** Outside of video mode they are a partition of the changed
region into as many rectangles as were announced, none of them too wide or too large for the
encoders. Both loops go forward, so they end. -/
theorem tiles_partition (hvideo : m.legacyVideo ctx = false) (changed : Region) :
    let tiles := (m.mainRects ctx changed).flatMap (m.subRects ctx)
    (tiles.Pairwise fun s t => Disjoint (Region.ofRect s) (Region.ofRect t)) ∧
      (∀ p, (∃ t ∈ tiles, p ∈ Region.ofRect t) ↔ p ∈ changed) ∧
      (∀ t ∈ tiles, t.width ≤ SubRectMaxWidth ∧ t.width * t.height ≤ SubRectMaxArea) ∧
      (∀ r ∈ m.mainRects ctx changed, 0 < subWidth r ∧ 0 < subHeight r) ∧
      tiles.length = m.computeNumRects ctx changed ∧
      ∀ w, m.writeRects ctx changed w = writeSubRects ctx tiles w := by
  have hmain : m.mainRects ctx changed = changed.getRects true true := by
    rw [mainRects, hvideo]
    rfl
  have hpos : ∀ r ∈ changed.getRects true true, r.tl.1 < r.br.1 ∧ r.tl.2 < r.br.2 :=
    fun r hr => Region.getRects_nonempty hr
  dsimp only
  rw [hmain]
  refine ⟨?_, fun p => ?_, fun t ht => ?_, fun r hr => subRect_pos (hpos r hr).1, ?_, fun w => ?_⟩
  · refine List.pairwise_flatMap.mpr ⟨fun r hr => m.subRects_disjoint ctx (hpos r hr).1, ?_⟩
    refine (Region.getRects_disjoint changed true true).imp_of_mem fun {r r'} hr hr' hdisj => ?_
    intro s hs t ht
    refine Finset.disjoint_left.mpr fun p hp hp' => ?_
    exact Finset.disjoint_left.mp hdisj
      ((m.mem_subRects ctx (hpos r hr).1).mp ⟨s, hs, hp⟩)
      ((m.mem_subRects ctx (hpos r' hr').1).mp ⟨t, ht, hp'⟩)
  · rw [← @Region.mem_getRects changed true true p]
    constructor
    · rintro ⟨t, ht, hp⟩
      obtain ⟨r, hr, ht⟩ := List.mem_flatMap.mp ht
      exact ⟨r, hr, (m.mem_subRects ctx (hpos r hr).1).mp ⟨t, ht, hp⟩⟩
    · rintro ⟨r, hr, hp⟩
      obtain ⟨t, ht, hp⟩ := (m.mem_subRects ctx (hpos r hr).1).mpr hp
      exact ⟨t, List.mem_flatMap.mpr ⟨r, hr, ht⟩, hp⟩
  · obtain ⟨r, hr, ht⟩ := List.mem_flatMap.mp ht
    exact m.size_of_mem_subRects ctx hvideo (hpos r hr).1 ht
  · exact length_flatMap_subRects ctx m hpos
  · rw [writeRects, hmain]

/-- A square that has to be cut. -/
theorem tiles_partition_square :
    let tiles := ((⟨false, fun _ => 0, 0⟩ : EncodeManager).mainRects (onePixelContext false false)
      (Region.ofRect ⟨(0, 0), (300, 300)⟩)).flatMap
      ((⟨false, fun _ => 0, 0⟩ : EncodeManager).subRects (onePixelContext false false))
    tiles.Pairwise fun s t => Disjoint (Region.ofRect s) (Region.ofRect t) :=
  (tiles_partition (onePixelContext false false) ⟨false, fun _ => 0, 0⟩ rfl _).1

end EncodeManager

end KasmVNC.Rfb
