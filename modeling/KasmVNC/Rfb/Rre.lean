import KasmVNC.Lib.Sweep
import KasmVNC.Rfb.HextileEncode
import KasmVNC.Rfb.Palette

/-!
# RRE

A rectangle is sent as a background and one-coloured subrects over it. The encoder goes
through its copy of the pixels row by row: each pixel that is not background starts a
subrect, as wide as the colour goes on in the row and as high as whole rows of that width
have it, or else as high as the colour goes on in the column and as wide as whole columns of
that height have it, if that is bigger. What a subrect covers below the row is erased.

The sizes of the copy are `int`s, and that is the only limit: `rre_round_trip` holds for
every image whose bytes can be counted by one.
-/

namespace KasmVNC.Rfb

open KasmVNC.Lib Reader

variable {κ : Type} {k : ℕ}

/-! ## The encoder -/

/-- `vh`: as far as the colour goes on in the column. -/
def columnHeight (h : ℕ) (data : Block (RawPixel k)) (x y : ℕ) : ℕ :=
  ((List.range' (y + 1) (h - (y + 1))).takeWhile fun q => data x q = data x y).length + 1

/-- `vw`: as long as whole columns of that height have the colour. -/
def columnsWidth (data : Block (RawPixel k)) (x y sw vh : ℕ) : ℕ :=
  ((List.range' (x + 1) (sw - 1)).takeWhile fun p =>
    ∀ q ∈ List.range' y vh, data p q = data x y).length + 1

/-- The horizontal subrect, or the vertical one if that is bigger. -/
def rreSubrect (w h : ℕ) (data : Block (RawPixel k)) (x y : ℕ) : Subrect (RawPixel k) :=
  let s := findSubrect w h data x y
  let vh := columnHeight h data x y
  if vh ≠ s.h then
    let vw := columnsWidth data x y s.w vh
    if s.w * s.h < vw * vh then { s with w := vw, h := vh } else s
  else s

/-- What is written for a subrect. -/
def rreSubrectBytes (s : Subrect (RawPixel k)) : List Byte :=
  s.colour.val ++ [s.x, s.y, s.w, s.h].flatMap fun n => be16 (BitVec.ofNat 16 n)

/-- The loop over the columns of a row. Each turn goes on by one column at least. -/
def rreEncodeRow (w h : ℕ) (bg : RawPixel k) (y : ℕ) : ℕ → ℕ → TileState k → TileState k
  | 0, _, st => st
  | turns + 1, x, st =>
    if w ≤ x then st
    else if st.data x y = bg then rreEncodeRow w h bg y turns (x + 1) st
    else
      let s := rreSubrect w h st.data x y
      rreEncodeRow w h bg y turns (x + s.w)
        ⟨eraseBelow bg s st.data, st.nSubrects + 1, st.encoded ++ rreSubrectBytes s⟩

/-- `rreEncode` -/
def rreEncode (w h : ℕ) (bg : RawPixel k) (data : Block (RawPixel k)) : TileState k :=
  (List.range h).foldl (fun st y => rreEncodeRow w h bg y w 0 st) ⟨data, 0, bg.val⟩

/-- `ManagedPixelBuffer::checkDataSize` for so many pixels. The size is an `int`: a
negative one cannot be allocated, and one that has become positive again is too small. -/
def checkDataSize (k w h : ℕ) : Except Fault Unit := require (w * h * k < 2 ^ 31)

/-- `RREEncoder::writeRect`: the number of subrects, and the bytes behind it. Without a
palette, the first pixel is the background. -/
def rreEncodeRect (palette : Palette (RawPixel k)) (pb : PreparedBuffer (RawPixel k)) :
    Except Fault (BitVec 32 × List Byte) :=
  if palette.size = 1 then .ok (0, (palette.getColour 0).val)
  else
    (checkDataSize k pb.width pb.height).map fun _ =>
      let imageBuf := pb.getImage pb.getRect
      let bg := if palette.size > 0 then palette.getColour 0 else imageBuf 0 0
      let mos := rreEncode pb.width pb.height bg imageBuf
      (BitVec.ofNat 32 mos.nSubrects, mos.encoded)

/-! ## The decoder -/

/-- `fillRect` -/
def fillRect (r : Rect) (pix : RawPixel k) (frame : Point → RawPixel k) : Point → RawPixel k :=
  imageRect r (fun _ _ => pix) frame

/-- The loop over the subrects, of which so many are left. -/
def rreDecodeSubrects (r : Rect) : ℕ → (Point → RawPixel k) → Reader κ (Point → RawPixel k)
  | 0, frame => pure frame
  | n + 1, frame => do
      let pix ← readPixel k
      let x ← readU16
      let y ← readU16
      let w ← readU16
      let h ← readU16
      if (x.toNat + w.toNat : ℤ) > r.width ∨ (y.toNat + h.toNat : ℤ) > r.height then
        fail "RRE decode error"
      else
        rreDecodeSubrects r n (fillRect ⟨(r.tl.1 + x.toNat, r.tl.2 + y.toNat),
          (r.tl.1 + x.toNat + w.toNat, r.tl.2 + y.toNat + h.toNat)⟩ pix frame)

variable (k) in
/-- `rreDecode`. The count is an `int`, and a negative one is the end of the loop. -/
def rreDecode (r : Rect) (frame : Point → RawPixel k) : Reader κ (Point → RawPixel k) := do
  let nSubrects ← readU32
  let bg ← readPixel k
  rreDecodeSubrects r nSubrects.toInt.toNat (fillRect r bg frame)

variable (k) in
/-- `RREDecoder::readRect`: the bytes it copies. Their number is a U32. -/
def rreReadRect : Reader κ (List Byte) := do
  let numRects ← readU32
  let bytes ← readBytes (BitVec.ofNat 32 k + numRects * BitVec.ofNat 32 (k + 8)).toNat
  pure (be32 numRects ++ bytes)

/-! ## The subrects that are found -/

section Subrect

variable {w h x y : ℕ} (data : Block (RawPixel k))

theorem columnHeight_le (hy : y < h) : y + columnHeight h data x y ≤ h := by
  have hle := (takeWhile_range' (P := fun q => data x q = data x y) (m := h - (y + 1))
    (a := y + 1)).1
  unfold columnHeight
  omega

theorem columnHeight_eq {q : ℕ} (hlo : y ≤ q) (hhi : q < y + columnHeight h data x y) :
    data x q = data x y := by
  rcases Nat.eq_or_lt_of_le hlo with rfl | hlt
  · rfl
  · unfold columnHeight at hhi
    have hcol := (takeWhile_range' (P := fun q => data x q = data x y) (m := h - (y + 1))
      (a := y + 1)).2 q hlt (by omega)
    exact of_decide_eq_true hcol

theorem columnsWidth_le {sw vh : ℕ} (hsw : 0 < sw) : columnsWidth data x y sw vh ≤ sw := by
  have hle := (takeWhile_range' (P := fun p => ∀ q ∈ List.range' y vh, data p q = data x y)
    (m := sw - 1) (a := x + 1)).1
  unfold columnsWidth
  omega

/-- The columns to the right of the first one. -/
theorem columnsWidth_eq {sw vh p q : ℕ} (hplo : x < p)
    (hphi : p < x + columnsWidth data x y sw vh) (hqlo : y ≤ q) (hqhi : q < y + vh) :
    data p q = data x y := by
  unfold columnsWidth at hphi
  have hcol := (takeWhile_range' (P := fun p => ∀ q ∈ List.range' y vh, data p q = data x y)
    (m := sw - 1) (a := x + 1)).2 p hplo (by omega)
  exact of_decide_eq_true hcol q (List.mem_range'_1.mpr ⟨hqlo, hqhi⟩)

/-- What the scan needs to know of a subrect. -/
structure Found (w h : ℕ) (data : Block (RawPixel k)) (x y : ℕ) (s : Subrect (RawPixel k)) :
    Prop where
  left : s.x = x
  top : s.y = y
  colour : s.colour = data x y
  wpos : 0 < s.w
  hpos : 0 < s.h
  inside : s.Inside w h
  shows : s.Shows data

theorem found_horizontal (hx : x < w) (hy : y < h) :
    Found w h data x y (findSubrect w h data x y) := by
  have hfits := findSubrect_fits data hx hy
  exact ⟨rfl, rfl, rfl, hfits.wpos, hfits.hpos, ⟨hfits.right, hfits.bottom⟩,
    findSubrect_shows data⟩

theorem found_vertical (hx : x < w) (hy : y < h) :
    Found w h data x y ⟨x, y, columnsWidth data x y (findSubrect w h data x y).w
      (columnHeight h data x y), columnHeight h data x y, data x y⟩ where
  left := rfl
  top := rfl
  colour := rfl
  wpos := Nat.succ_pos _
  hpos := Nat.succ_pos _
  inside := by
    have hfound := found_horizontal data hx hy
    have hw : columnsWidth data x y _ (columnHeight h data x y) ≤ _ :=
      columnsWidth_le data hfound.wpos
    have hinside := hfound.inside.1
    rw [hfound.left] at hinside
    exact ⟨le_trans (Nat.add_le_add_left hw x) hinside, columnHeight_le data hy⟩
  shows := by
    rintro p q ⟨⟨hplo, hphi⟩, hqlo, hqhi⟩
    dsimp only at hplo hphi hqlo hqhi ⊢
    rcases Nat.eq_or_lt_of_le hplo with rfl | hlt
    · exact columnHeight_eq data hqlo hqhi
    · exact columnsWidth_eq data hlt hphi hqlo hqhi

theorem rreSubrect_found (hx : x < w) (hy : y < h) :
    Found w h data x y (rreSubrect w h data x y) := by
  unfold rreSubrect
  dsimp only
  split
  · split
    · exact found_vertical data hx hy
    · exact found_horizontal data hx hy
  · exact found_horizontal data hx hy

end Subrect

/-! ## The scan -/

/-- The scan, and what has been written for it. -/
structure RreProgress (w h : ℕ) (f : Block (RawPixel k)) (bg : RawPixel k) (x y : ℕ)
    (ss : List (Subrect (RawPixel k))) (st : TileState k) : Prop where
  sweep : Sweep w h f bg x y ss st.data
  count : st.nSubrects = ss.length
  few : ss.length ≤ y * w + x
  encoded : st.encoded = bg.val ++ ss.flatMap rreSubrectBytes

section Loops

variable {w h x y : ℕ} {f : Block (RawPixel k)} {bg : RawPixel k}
  {ss : List (Subrect (RawPixel k))} {st : TileState k}

theorem RreProgress.add (hp : RreProgress w h f bg x y ss st) {s : Subrect (RawPixel k)}
    (hs : Found w h st.data x y s) (hbg : st.data x y ≠ bg) :
    RreProgress w h f bg (x + s.w) y (ss ++ [s])
      ⟨eraseBelow bg s st.data, st.nSubrects + 1, st.encoded ++ rreSubrectBytes s⟩ where
  sweep := hp.sweep.take hs.left hs.top hs.hpos hs.inside hs.shows (by rwa [hs.colour])
  count := by
    rw [List.length_append, List.length_singleton, ← hp.count]
  few := by
    have hfew := hp.few
    have hwpos := hs.wpos
    rw [List.length_append, List.length_singleton]
    omega
  encoded := by
    rw [List.flatMap_append, List.flatMap_singleton, ← List.append_assoc, ← hp.encoded]

theorem RreProgress.nextRow (hp : RreProgress w h f bg x y ss st) (hx : x = w) :
    RreProgress w h f bg 0 (y + 1) ss st where
  sweep := hp.sweep.nextRow hx.ge
  count := hp.count
  few := by
    have hfew := hp.few
    rw [Nat.succ_mul]
    omega
  encoded := hp.encoded

/-- Induction on the turns that are left: each one takes a column at least. -/
theorem rreEncodeRow_progress (hy : y < h) : ∀ {turns x : ℕ}
    {ss : List (Subrect (RawPixel k))} {st : TileState k}, x ≤ w → w ≤ x + turns →
      RreProgress w h f bg x y ss st →
        ∃ ss', RreProgress w h f bg 0 (y + 1) ss' (rreEncodeRow w h bg y turns x st)
  | 0, x, ss, st, hx, hturns, hp => ⟨ss, hp.nextRow (by omega)⟩
  | turns + 1, x, ss, st, hx, hturns, hp => by
    rw [rreEncodeRow]
    by_cases hend : w ≤ x
    · rw [if_pos hend]
      exact ⟨ss, hp.nextRow (by omega)⟩
    · rw [if_neg hend]
      by_cases hbg : st.data x y = bg
      · rw [if_pos hbg]
        have hfew := hp.few
        exact rreEncodeRow_progress hy (by omega) (by omega)
          ⟨hp.sweep.skip hbg, hp.count, by omega, hp.encoded⟩
      · rw [if_neg hbg]
        have hs := rreSubrect_found st.data (not_le.mp hend) hy
        have hwpos := hs.wpos
        have hright := hs.inside.1
        rw [hs.left] at hright
        exact rreEncodeRow_progress hy hright (by omega) (hp.add hs hbg)

theorem rreEncode_progress (w h : ℕ) (f : Block (RawPixel k)) (bg : RawPixel k) :
    ∃ ss, RreProgress w h f bg 0 h ss (rreEncode w h bg f) := by
  -- the rows that have been gone through are counted by their number
  have hrows : ∀ n ≤ h, ∃ ss, RreProgress w h f bg 0 n ss
      ((List.range n).foldl (fun st y => rreEncodeRow w h bg y w 0 st) ⟨f, 0, bg.val⟩) := by
    intro n hn
    induction n with
    | zero => exact ⟨[], sweep_start, rfl, Nat.zero_le _, (List.append_nil _).symm⟩
    | succ n ih =>
      obtain ⟨ss, hp⟩ := ih (by omega)
      rw [List.range_succ, List.foldl_append, List.foldl_cons, List.foldl_nil]
      exact rreEncodeRow_progress (by omega) (Nat.zero_le w) (by omega) hp
  exact hrows h le_rfl

end Loops

/-! ## Painting the subrects -/

section Decode

variable {w h : ℕ} {r : Rect}

/-- Filling a part of a rectangle that shows an image is to paint over the image. -/
theorem fillRect_imageRect {s : Subrect (RawPixel k)} (hw : r.width = w) (hh : r.height = h)
    (hin : s.Inside w h) (image : Block (RawPixel k)) (frame : Point → RawPixel k) :
    fillRect ⟨(r.tl.1 + s.x, r.tl.2 + s.y), (r.tl.1 + s.x + s.w, r.tl.2 + s.y + s.h)⟩ s.colour
      (imageRect r image frame) = imageRect r (s.paint image) frame := by
  obtain ⟨hright, hbottom⟩ := hin
  unfold Rect.width at hw
  unfold Rect.height at hh
  ext1 p
  unfold fillRect imageRect Subrect.paint
  by_cases hr : p ∈ Region.ofRect r
  · rw [if_pos hr, if_pos hr]
    rw [Region.mem_ofRect] at hr
    refine if_congr ?_ rfl rfl
    rw [Region.mem_ofRect, Subrect.Contains]
    dsimp only
    omega
  · rw [if_neg hr, if_neg hr, if_neg]
    rw [Region.mem_ofRect] at hr ⊢
    dsimp only
    omega

/-- The subrects are painted in the order they come. -/
theorem reads_rreSubrects (hw : r.width = w) (hh : r.height = h) (hwmax : w ≤ 65535)
    (hhmax : h ≤ 65535) (frame : Point → RawPixel k) : ∀ (ss : List (Subrect (RawPixel k)))
    (image : Block (RawPixel k)), (∀ s ∈ ss, s.Inside w h) →
      Reads (rreDecodeSubrects r ss.length (imageRect r image frame) : Reader κ _)
        (ss.flatMap rreSubrectBytes) (imageRect r (paintAll image ss) frame)
  | [], image, _ => consumes_refl _
  | s :: ss, image, hin => by
    obtain ⟨hs, hss⟩ := List.forall_mem_cons.mp hin
    have hvalue : ∀ n ≤ 65535, (BitVec.ofNat 16 n).toNat = n := by
      intro n hn
      rw [BitVec.toNat_ofNat]
      exact Nat.mod_eq_of_lt (by omega)
    obtain ⟨hright, hbottom⟩ := id hs
    have hbytes : (s :: ss).flatMap rreSubrectBytes =
        s.colour.val ++ (be16 (BitVec.ofNat 16 s.x) ++ (be16 (BitVec.ofNat 16 s.y) ++
          (be16 (BitVec.ofNat 16 s.w) ++ (be16 (BitVec.ofNat 16 s.h) ++
            ss.flatMap rreSubrectBytes)))) := by
      simp [rreSubrectBytes]
    rw [hbytes]
    refine Consumes.read (reads_pixel s.colour) ?_
    refine Consumes.read (reads_u16 _) ?_
    refine Consumes.read (reads_u16 _) ?_
    refine Consumes.read (reads_u16 _) ?_
    refine Consumes.read (reads_u16 _) ?_
    rw [hvalue s.x (by omega), hvalue s.y (by omega), hvalue s.w (by omega),
      hvalue s.h (by omega), if_neg (by omega), fillRect_imageRect hw hh hs]
    exact reads_rreSubrects hw hh hwmax hhmax frame ss (s.paint image) hss

end Decode

/-! ## Round trip -/

/-- The rectangle has been encoded as some subrects that lie in it, with their number in
front, and decodes to its pixels wherever it is sent to. -/
def RreTrips (palette : Palette (RawPixel k)) (pb : PreparedBuffer (RawPixel k)) : Prop :=
  ∃ (n : BitVec 32) (bg : RawPixel k) (ss : List (Subrect (RawPixel k))),
    rreEncodeRect palette pb = .ok (n, bg.val ++ ss.flatMap rreSubrectBytes) ∧
    n.toNat = ss.length ∧ (∀ s ∈ ss, s.Inside pb.width pb.height) ∧
    ∀ (d : Point) (frame : Point → RawPixel k), ∃ frame',
      Reads (rreDecode k (pb.getRect.translate d) frame : Reader Empty _)
        (be32 n ++ (bg.val ++ ss.flatMap rreSubrectBytes)) frame' ∧
      (∀ p ∈ Region.ofRect pb.getRect, frame' (p + d) = pb.pixel p) ∧
      ∀ p ∉ Region.ofRect pb.getRect, frame' (p + d) = frame (p + d)

section RoundTrip

variable {palette : Palette (RawPixel k)} {pb : PreparedBuffer (RawPixel k)}

theorem trips_of_subrects (n : BitVec 32) (bg : RawPixel k) (ss : List (Subrect (RawPixel k)))
    (hencode : rreEncodeRect palette pb = .ok (n, bg.val ++ ss.flatMap rreSubrectBytes))
    (hn : n.toNat = ss.length) (hcount : ss.length < 2 ^ 31) (hw : pb.width ≤ 65535)
    (hh : pb.height ≤ 65535) (hin : ∀ s ∈ ss, s.Inside pb.width pb.height)
    (himage : ∀ x < pb.width, ∀ y < pb.height,
      paintAll (fun _ _ => bg) ss x y = pb.getImage pb.getRect x y) : RreTrips palette pb := by
  refine ⟨n, bg, ss, hencode, hn, hin, fun d frame => ?_⟩
  obtain ⟨hshown, hkept⟩ := shown_whole_image (E := Eq) (d := d) frame himage
  refine ⟨_, ?_, hshown, hkept⟩
  have hturns : n.toInt.toNat = ss.length := by
    rw [BitVec.toInt_eq_toNat_of_lt (by omega), hn]
    rfl
  have hwidth : (pb.getRect.translate d).width = pb.width := by
    simp [PreparedBuffer.getRect, Rect.translate, Rect.width]
  have hheight : (pb.getRect.translate d).height = pb.height := by
    simp [PreparedBuffer.getRect, Rect.translate, Rect.height]
  refine Consumes.read (reads_u32 n) (Consumes.read (reads_pixel bg) ?_)
  rw [hturns]
  exact reads_rreSubrects hwidth hheight hw hh frame ss _ hin

/-- One colour, and no subrects. -/
theorem trips_of_one_colour (hw : pb.width ≤ 65535) (hh : pb.height ≤ 65535)
    (hone : palette.size = 1) (hpalette : ∀ c ∈ pb.pixels, c ∈ palette.colours) :
    RreTrips palette pb := by
  refine trips_of_subrects 0 (palette.getColour 0) [] ?_ rfl (show 0 < 2 ^ 31 by decide) hw hh
    (by simp) ?_
  · rw [rreEncodeRect, if_pos hone, List.flatMap_nil, List.append_nil]
  · intro x hx y hy
    have hmem := hpalette _ (mem_raster.mpr ⟨x, hx, y, hy, rfl⟩)
    rw [Palette.colours_of_size_one hone] at hmem
    exact (List.mem_singleton.mp hmem).symm

theorem trips_of_scan (hk : 0 < k) (hw : pb.width ≤ 65535) (hh : pb.height ≤ 65535)
    (hmany : palette.size ≠ 1) (hsize : pb.width * pb.height * k < 2 ^ 31) :
    RreTrips palette pb := by
  obtain ⟨ss, hp⟩ := rreEncode_progress pb.width pb.height (pb.getImage pb.getRect)
    (if palette.size > 0 then palette.getColour 0 else pb.getImage pb.getRect 0 0)
  -- there are no more subrects than pixels
  have hcount : ss.length < 2 ^ 31 := by
    have hfew := hp.few
    have hpixels : pb.width * pb.height ≤ pb.width * pb.height * k := Nat.le_mul_of_pos_right _ hk
    rw [Nat.mul_comm pb.height, Nat.add_zero] at hfew
    omega
  refine trips_of_subrects (BitVec.ofNat 32 ss.length) _ ss ?_ ?_ hcount hw hh hp.sweep.inside
    fun x hx y hy => hp.sweep.done le_rfl hx hy
  · rw [rreEncodeRect, if_neg hmany, checkDataSize, require_ok hsize]
    show Except.ok (BitVec.ofNat 32 (rreEncode _ _ _ _).nSubrects, (rreEncode _ _ _ _).encoded) = _
    rw [hp.count, hp.encoded]
  · rw [BitVec.toNat_ofNat]
    exact Nat.mod_eq_of_lt (by omega)

/-- The copy of a large image cannot be made. -/
theorem not_trips (hmany : palette.size ≠ 1) (hlarge : ¬pb.width * pb.height * k < 2 ^ 31) :
    ¬RreTrips palette pb := by
  rintro ⟨n, bg, ss, hencode, -⟩
  rw [rreEncodeRect, if_neg hmany] at hencode
  obtain ⟨u, hreq, -⟩ := of_map_ok hencode
  rw [checkDataSize, require, if_neg hlarge] at hreq
  cases hreq

end RoundTrip

/-- **Round trip.** A rectangle makes it exactly if it has one colour, or if the bytes of its
pixels are counted by an `int`. -/
theorem rre_round_trip (width : PixelWidth) (pb : PreparedBuffer (RawPixel width.bytes))
    (maxColours : ℕ) (hw : pb.width ≤ 65535) (hh : pb.height ≤ 65535) :
    RreTrips (paletteOf maxColours pb.pixels) pb ↔
      (paletteOf maxColours pb.pixels).size = 1 ∨
        pb.width * pb.height * width.bytes < 2 ^ 31 := by
  by_cases hone : (paletteOf maxColours pb.pixels).size = 1
  · refine iff_of_true (trips_of_one_colour hw hh hone fun c hc => ?_) (Or.inl hone)
    rcases paletteOf_spec maxColours pb.pixels with hempty | ⟨htally, -⟩
    · rw [hempty] at hone
      cases hone
    · exact (htally.mem_iff c).mpr hc
  · constructor
    · intro htrips
      right
      by_contra hlarge
      exact not_trips hone hlarge htrips
    · rintro (hsolid | hsize)
      · exact absurd hsolid hone
      · exact trips_of_scan width.bytes_pos hw hh hone hsize

/-- A white pixel beside a black one. -/
def twoPixels : PreparedBuffer (RawPixel PixelWidth.bpp8.bytes) :=
  ⟨2, 1, fun p => if p = (0, 0) then PixelWidth.white else PixelWidth.black⟩

theorem rre_round_trip_twoPixels : RreTrips (paletteOf 2 twoPixels.pixels) twoPixels :=
  (rre_round_trip .bpp8 twoPixels 2 (by decide) (by decide)).mpr (Or.inr (by decide))

/-- The largest image there is, with one white pixel. -/
def largestImage : PreparedBuffer (RawPixel PixelWidth.bpp8.bytes) :=
  ⟨65535, 65535, fun p => if p = (0, 0) then PixelWidth.white else PixelWidth.black⟩

/-- Its copy would need more bytes than an `int` can count. -/
theorem rre_refuses_largest : ¬RreTrips (paletteOf 256 largestImage.pixels) largestImage := by
  refine not_trips (fun hone => ?_) (by decide)
  rcases paletteOf_spec 256 largestImage.pixels with hempty | ⟨htally, -⟩
  · rw [hempty] at hone
    cases hone
  · -- with one colour only, the first two pixels would be the same
    have hmem : ∀ x < 2, largestImage.getImage largestImage.getRect x 0 ∈
        (paletteOf 256 largestImage.pixels).colours := fun x hx =>
      (htally.mem_iff _).mpr (mem_raster.mpr ⟨x, hx.trans (by decide), 0, by decide, rfl⟩)
    have hwhite := hmem 0 (by decide)
    have hblack := hmem 1 (by decide)
    rw [Palette.colours_of_size_one hone, List.mem_singleton] at hwhite hblack
    have hsame := congrArg Subtype.val (hwhite.trans hblack.symm)
    revert hsame
    decide

end KasmVNC.Rfb
