import KasmVNC.Rfb.SubRects
import KasmVNC.Rfb.ComparingUpdateTracker
import KasmVNC.Rfb.Tiles

/-!
# Solid areas

Before the changed region is cut into tiles, `writeSolidRects` looks for areas of one colour
in it. A solid block is extended by blocks and then by lines of pixels; what is found is sent
and taken out of the region, and the search goes on at the left, at the right and below.
-/

namespace KasmVNC.Rfb

open KasmVNC.Lib

abbrev SolidSearchBlock : ℤ := 16
abbrev SolidBlockMinArea : ℤ := 2048

theorem searchBlock_pos : 0 < SolidSearchBlock := by decide

/-- A rectangle that is sent with its colour. -/
structure SolidRect (D : Type*) where
  rect : Rect
  colour : D

/-- What is left of the changed region, and what has been sent. -/
abbrev SolidState (D : Type*) := Region × List (SolidRect D)

/-! ## What a search sends -/

section Extracted

variable {C D : Type*} {pb : PixelBuffer C} {convert : C → D} {R S : Region}
  {st st' st'' : SolidState D}

/-- A search in `R` has sent these rectangles. -/
structure Extracted (pb : PixelBuffer C) (convert : C → D) (R : Region) (st st' : SolidState D)
    (found : List (SolidRect D)) : Prop where
  sent : st'.2 = st.2 ++ found
  changed : ∀ p, p ∈ st'.1 ↔ p ∈ st.1 ∧ ∀ s ∈ found, p ∉ Region.ofRect s.rect
  inside : ∀ s ∈ found, Region.ofRect s.rect ⊆ R
  colour : ∀ s ∈ found, ∀ p ∈ Region.ofRect s.rect, convert (pb.pixel p) = s.colour
  disjoint : found.Pairwise fun s t => Disjoint (Region.ofRect s.rect) (Region.ofRect t.rect)

/-- The search in a region. -/
def Extracts (pb : PixelBuffer C) (convert : C → D) (R : Region) (st st' : SolidState D) : Prop :=
  ∃ found, Extracted pb convert R st st' found

theorem Extracts.refl (R : Region) (st : SolidState D) : Extracts pb convert R st st := by
  refine ⟨[], (List.append_nil _).symm, fun p => ?_, ?_, ?_, List.Pairwise.nil⟩
  · exact ⟨fun hp => ⟨hp, fun s hs => absurd hs List.not_mem_nil⟩, And.left⟩
  · exact fun s hs => absurd hs List.not_mem_nil
  · exact fun s hs => absurd hs List.not_mem_nil

theorem Extracts.mono (h : Extracts pb convert R st st') (hRS : R ⊆ S) :
    Extracts pb convert S st st' := by
  obtain ⟨found, h⟩ := h
  exact ⟨found, h.sent, h.changed, fun s hs => (h.inside s hs).trans hRS, h.colour, h.disjoint⟩

/-- Searches in regions that do not meet. -/
theorem Extracts.trans (h : Extracts pb convert R st st') (h' : Extracts pb convert S st' st'')
    (hdisj : Disjoint R S) : Extracts pb convert (R ∪ S) st st'' := by
  obtain ⟨found, h⟩ := h
  obtain ⟨found', h'⟩ := h'
  refine ⟨found ++ found', ?_, fun p => ?_, ?_, ?_, List.pairwise_append.mpr
    ⟨h.disjoint, h'.disjoint, fun s hs t ht => hdisj.mono (h.inside s hs) (h'.inside t ht)⟩⟩
  · rw [h'.sent, h.sent, List.append_assoc]
  · rw [h'.changed, h.changed, List.forall_mem_append, and_assoc]
  · exact List.forall_mem_append.mpr
      ⟨fun s hs => (h.inside s hs).trans Finset.subset_union_left,
        fun s hs => (h'.inside s hs).trans Finset.subset_union_right⟩
  · exact List.forall_mem_append.mpr ⟨h.colour, h'.colour⟩

/-- Only one of several searches that may be left out. -/
theorem Extracts.ite (c : Prop) [Decidable c] (h : Extracts pb convert R st st') :
    Extracts pb convert R st (if c then st' else st) := by
  split
  · exact h
  · exact Extracts.refl R st

theorem extracts_single {s : SolidRect D}
    (hcolour : ∀ p ∈ Region.ofRect s.rect, convert (pb.pixel p) = s.colour) (st : SolidState D) :
    Extracts pb convert (Region.ofRect s.rect) st
      (st.1 \ Region.ofRect s.rect, st.2 ++ [s]) := by
  refine ⟨[s], rfl, fun p => ?_, ?_, ?_, List.pairwise_singleton _ _⟩
  · rw [List.forall_mem_singleton]
    exact Finset.mem_sdiff
  · exact List.forall_mem_singleton.mpr (Finset.Subset.refl _)
  · exact List.forall_mem_singleton.mpr hcolour

end Extracted

variable {C D : Type*} [DecidableEq C]

/-! ## Tiles of one colour -/

section CheckSolidTile

variable (data : ℕ → C) (colourValue : C)

/-- The loop over the pixels of a line. -/
def checkSolidLine : ℕ → ℕ → Bool
  | 0, _ => true
  | w + 1, buffer =>
    if data buffer ≠ colourValue then false else checkSolidLine w (buffer + 1)

/-- The loop over the lines. `pad` leads from the end of a line to the next one, so the
pointer goes on by a whole `stride`. -/
def checkSolidLines (stride w : ℕ) : ℕ → ℕ → Bool
  | 0, _ => true
  | h + 1, buffer =>
    checkSolidLine data colourValue w buffer && checkSolidLines stride w h (buffer + stride)

end CheckSolidTile

def checkSolidTile (pb : PixelBuffer C) (colourValue : C) (r : Rect) : Bool :=
  checkSolidLines pb.data colourValue pb.stride r.cols r.rows (pb.offset r.tl)

namespace EncodeManager

/-! ## Extending a solid area -/

section Extend

-- `checkSolidTile` with the buffer and the colour
variable (solid : Rect → Bool)

/-- The loop over `dy`, with `w_prev`, `w_best` and `h_best`. -/
def extendBlocks (r : Rect) : List ℤ → ℤ × ℤ × ℤ → ℤ × ℤ
  | [], (_, best) => best
  | dy :: dys, (w_prev, w_best, h_best) =>
    let dh := min SolidSearchBlock (r.br.2 - dy)
    let dw := min SolidSearchBlock w_prev
    if !solid (Rect.ofXYWH r.tl.1 dy dw dh) then (w_best, h_best)
    else
      let dx := strideStop SolidSearchBlock (r.tl.1 + dw) (r.tl.1 + w_prev) fun dx =>
        solid (Rect.ofXYWH dx dy (min SolidSearchBlock (r.tl.1 + w_prev - dx)) dh)
      let w_prev := dx - r.tl.1
      let h := dy + dh - r.tl.2
      extendBlocks r dys
        (if w_prev * h > w_best * h_best then (w_prev, w_prev, h) else (w_prev, w_best, h_best))

/-- We search width first, back off when we hit a different colour, and restart with a larger
height. -/
def extendSolidAreaByBlock (r : Rect) : Rect :=
  let best := extendBlocks solid r (strides SolidSearchBlock r.tl.2 r.br.2) (r.width, 0, 0)
  ⟨r.tl, (r.tl.1 + best.1, r.tl.2 + best.2)⟩

/-- Upwards, downwards, to the left and to the right. -/
def extendSolidAreaByPixel (r sr : Rect) : Rect :=
  let line := fun cy => solid (Rect.ofXYWH sr.tl.1 cy sr.width 1)
  let top := strideStopDown r.tl.2 sr.tl.2 line
  let bottom := strideStop 1 sr.br.2 r.br.2 line
  let column := fun cx => solid (Rect.ofXYWH cx top 1 (bottom - top))
  let left := strideStopDown r.tl.1 sr.tl.1 column
  let right := strideStop 1 sr.br.1 r.br.1 column
  ⟨(left, top), (right, bottom)⟩

end Extend

/-! ## The search -/

section Search

-- The colour is converted for the encoder, unless it takes the server's pixel format.
variable (pb : PixelBuffer C) (convert : C → D)

/-- What is sent for the block at `(dx, dy)`: nothing if it is not solid, or too small. -/
def solidAt (rect : Rect) (dx dy : ℤ) : Option (SolidRect D) :=
  let colourValue := pb.pixel (dx, dy)
  let solid := checkSolidTile pb colourValue
  if solid (Rect.ofXYWH dx dy (min SolidSearchBlock (rect.br.1 - dx))
      (min SolidSearchBlock (rect.br.2 - dy))) then
    let erb := extendSolidAreaByBlock solid ⟨(dx, dy), rect.br⟩
    -- Did we end up getting the entire rectangle?
    if erb = rect then some ⟨erb, convert colourValue⟩
    -- Don't bother with sending tiny rectangles
    else if erb.area < SolidBlockMinArea then none
    else some ⟨extendSolidAreaByPixel solid rect erb, convert colourValue⟩
  else none

/-- The first block that something is sent for. -/
def firstSolid (rect : Rect) : Option (SolidRect D) :=
  ((strides SolidSearchBlock rect.tl.2 rect.br.2).flatMap fun dy =>
    (strides SolidSearchBlock rect.tl.1 rect.br.1).map fun dx => (dx, dy)).findSome? fun d =>
      solidAt pb convert rect d.1 d.2

/-- Left of what was found. A strip of the height of a block has been searched there. -/
def leftOf (rect erp : Rect) : Rect :=
  Rect.ofXYWH rect.tl.1 (erp.tl.2 + SolidSearchBlock) (erp.tl.1 - rect.tl.1)
    (erp.height - SolidSearchBlock)

def rightOf (rect erp : Rect) : Rect :=
  Rect.ofXYWH erp.br.1 erp.tl.2 (rect.br.1 - erp.br.1) erp.height

def below (rect erp : Rect) : Rect :=
  Rect.ofXYWH rect.tl.1 erp.br.2 rect.width (rect.br.2 - erp.br.2)

end Search

/-! ## What is checked -/

theorem checkSolidLine_iff {data : ℕ → C} {colourValue : C} : ∀ {w buffer : ℕ},
    checkSolidLine data colourValue w buffer = true ↔
      ∀ i < w, data (buffer + i) = colourValue
  | 0, buffer => iff_of_true rfl fun i hi => absurd hi (Nat.not_lt_zero i)
  | w + 1, buffer => by
    rw [checkSolidLine, Nat.forall_lt_succ_left]
    split
    case isTrue hne => exact iff_of_false Bool.false_ne_true fun h => hne h.1
    case isFalse heq =>
      have hfirst : data (buffer + 0) = colourValue := not_not.mp heq
      rw [checkSolidLine_iff, and_iff_right hfirst]
      simp only [Nat.add_assoc, Nat.add_comm 1]

theorem checkSolidLines_iff {data : ℕ → C} {colourValue : C} {stride w : ℕ} :
    ∀ {h buffer : ℕ}, checkSolidLines data colourValue stride w h buffer = true ↔
      ∀ j < h, ∀ i < w, data (buffer + j * stride + i) = colourValue
  | 0, buffer => iff_of_true rfl fun j hj => absurd hj (Nat.not_lt_zero j)
  | h + 1, buffer => by
    rw [checkSolidLines, Nat.forall_lt_succ_left, Bool.and_eq_true, checkSolidLine_iff,
      checkSolidLines_iff, Nat.zero_mul, Nat.add_zero]
    simp only [Nat.succ_mul, Nat.add_assoc, Nat.add_comm, Nat.add_left_comm]

theorem checkSolidTile_iff {pb : PixelBuffer C} {colourValue : C} {r : Rect} (hx : 0 ≤ r.tl.1)
    (hy : 0 ≤ r.tl.2) : checkSolidTile pb colourValue r = true ↔
      ∀ p ∈ Region.ofRect r, pb.pixel p = colourValue := by
  rw [checkSolidTile, checkSolidLines_iff]
  have hpixel : ∀ i j : ℕ, pb.data (pb.offset r.tl + j * pb.stride + i) =
      pb.pixel (r.tl.1 + i, r.tl.2 + j) := by
    intro i j
    refine congrArg pb.data ?_
    unfold PixelBuffer.offset
    dsimp only
    rw [Int.toNat_add hx (Int.natCast_nonneg i), Int.toNat_add hy (Int.natCast_nonneg j),
      Int.toNat_natCast, Int.toNat_natCast, Nat.add_mul]
    omega
  simp only [hpixel, Region.mem_ofRect, Rect.cols, Rect.rows, Rect.width, Rect.height]
  constructor
  · intro h p hp
    have hcell := h (p.2 - r.tl.2).toNat (by omega) (p.1 - r.tl.1).toNat (by omega)
    rwa [Int.toNat_of_nonneg (by omega), Int.toNat_of_nonneg (by omega), add_sub_cancel,
      add_sub_cancel] at hcell
  · intro h j hj i hi
    exact h _ (by dsimp only; omega)

/-! ## What is extended -/

section Extend

variable {solid : Rect → Bool} {P : Point → Prop} {lo : Point} {r sr : Rect}

/-- The check tells that all pixels of a tile have a property. -/
def Sound (solid : Rect → Bool) (P : Point → Prop) (lo : Point) : Prop :=
  ∀ t : Rect, lo.1 ≤ t.tl.1 → lo.2 ≤ t.tl.2 → solid t = true → ∀ p ∈ Region.ofRect t, P p

/-- Where the loop over `dy` is. -/
structure Extending (P : Point → Prop) (r : Rect) (dy w_prev : ℤ) (best : ℤ × ℤ) : Prop where
  width_pos : 0 < w_prev
  width_le : w_prev ≤ r.width
  searched : ∀ p ∈ Region.ofRect ⟨r.tl, (r.tl.1 + w_prev, min dy r.br.2)⟩, P p
  best_nonneg : 0 ≤ best.1 ∧ 0 ≤ best.2
  best_le : best.1 ≤ r.width ∧ best.2 ≤ r.height
  found : ∀ p ∈ Region.ofRect ⟨r.tl, (r.tl.1 + best.1, r.tl.2 + best.2)⟩, P p

/-- One line of blocks. -/
theorem Extending.step {dy w_prev : ℤ} {best : ℤ × ℤ} (h : Extending P r dy w_prev best)
    (hsolid : Sound solid P r.tl) (htop : r.tl.2 ≤ dy) (hdy : dy < r.br.2)
    (hfirst : solid (Rect.ofXYWH r.tl.1 dy (min SolidSearchBlock w_prev)
      (min SolidSearchBlock (r.br.2 - dy))) = true) :
    let dh := min SolidSearchBlock (r.br.2 - dy)
    let dx := strideStop SolidSearchBlock (r.tl.1 + min SolidSearchBlock w_prev)
      (r.tl.1 + w_prev) fun dx =>
        solid (Rect.ofXYWH dx dy (min SolidSearchBlock (r.tl.1 + w_prev - dx)) dh)
    Extending P r (dy + SolidSearchBlock) (dx - r.tl.1) best ∧
      Extending P r (dy + SolidSearchBlock) (dx - r.tl.1) (dx - r.tl.1, dy + dh - r.tl.2) := by
  intro dh dx
  have hblock : SolidSearchBlock = 16 := rfl
  have hwidth := h.width_pos
  have hwidth' := h.width_le
  have hle : r.tl.1 + min SolidSearchBlock w_prev ≤ r.tl.1 + w_prev := by omega
  obtain ⟨hstart, hend⟩ := strideStop_le searchBlock_pos hle fun dx =>
    solid (Rect.ofXYWH dx dy (min SolidSearchBlock (r.tl.1 + w_prev - dx)) dh)
  change _ ≤ dx at hstart
  change dx ≤ _ at hend
  have hsearched : ∀ p ∈ Region.ofRect ⟨r.tl, (dx, dy + dh)⟩, P p := by
    intro p hp
    obtain ⟨⟨hleft, hright⟩, hup, hdown⟩ := Region.mem_ofRect.mp hp
    dsimp only at hleft hright hup hdown
    by_cases habove : p.2 < dy
    · refine h.searched p (Region.mem_ofRect.mpr ⟨⟨hleft, ?_⟩, hup, lt_min habove ?_⟩)
      · exact hright.trans_le hend
      · omega
    by_cases hfar : p.1 < r.tl.1 + min SolidSearchBlock w_prev
    · refine hsolid _ ?_ htop hfirst p (Region.mem_ofRect.mpr ?_)
      · exact le_rfl
      · exact ⟨⟨hleft, hfar⟩, not_lt.mp habove, hdown⟩
    · obtain ⟨x, hx, hxp, hpx, hlast, hpass⟩ :=
        of_lt_strideStop searchBlock_pos (not_lt.mp hfar) hright hle
      refine hsolid _ ?_ htop hpass p (Region.mem_ofRect.mpr ⟨⟨hxp, ?_⟩, not_lt.mp habove, hdown⟩)
      · show r.tl.1 ≤ x
        omega
      · show p.1 < x + min SolidSearchBlock (r.tl.1 + w_prev - x)
        omega
  have hrows : min (dy + SolidSearchBlock) r.br.2 = dy + dh := by omega
  have hcols : r.tl.1 + (dx - r.tl.1) = dx := by omega
  have hkeep : ∀ p ∈ Region.ofRect ⟨r.tl, (r.tl.1 + (dx - r.tl.1),
      min (dy + SolidSearchBlock) r.br.2)⟩, P p := by
    rw [hrows, hcols]
    exact hsearched
  refine ⟨⟨by omega, by omega, hkeep, h.best_nonneg, h.best_le, h.found⟩, by omega, by omega, hkeep,
    ⟨by omega, by omega⟩, ⟨by omega, ?_⟩, ?_⟩
  · show dy + dh - r.tl.2 ≤ r.br.2 - r.tl.2
    omega
  · have hlines : r.tl.2 + (dy + dh - r.tl.2) = dy + dh := by omega
    dsimp only
    rw [hcols, hlines]
    exact hsearched

/-- The loop ends with the best area that it has come to. -/
theorem extendBlocks_spec (hsolid : Sound solid P r.tl) : ∀ {n : ℕ} {dy w_prev : ℤ} {best : ℤ × ℤ},
    Extending P r dy w_prev best → r.tl.2 ≤ dy →
      let res := extendBlocks solid r (stridesFrom SolidSearchBlock r.br.2 n dy) (w_prev, best)
      (∃ dy' w', Extending P r dy' w' res) ∧ best.1 * best.2 ≤ res.1 * res.2
  | 0, dy, w_prev, best, h, _ => ⟨⟨dy, w_prev, h⟩, le_rfl⟩
  | n + 1, dy, w_prev, best, h, htop => by
    dsimp only
    rw [stridesFrom]
    split
    case isFalse => exact ⟨⟨dy, w_prev, h⟩, le_rfl⟩
    case isTrue hdy =>
      rw [extendBlocks]
      dsimp only
      split
      case isTrue => exact ⟨⟨dy, w_prev, h⟩, le_rfl⟩
      case isFalse hfirst =>
        obtain ⟨hold, hnew⟩ := h.step hsolid htop hdy (by simpa using hfirst)
        have hnext : r.tl.2 ≤ dy + SolidSearchBlock := by
          have : SolidSearchBlock = 16 := rfl
          omega
        split
        case isTrue hbetter =>
          obtain ⟨hres, hle⟩ := extendBlocks_spec hsolid (n := n) hnew hnext
          exact ⟨hres, hbetter.le.trans hle⟩
        case isFalse => exact extendBlocks_spec hsolid (n := n) hold hnext

/-- The area starts with a solid block, so there is one. -/
theorem extendSolidAreaByBlock_spec (hsolid : Sound solid P r.tl) (hwidth : 0 < r.width)
    (hheight : 0 < r.height)
    (hfirst : solid (Rect.ofXYWH r.tl.1 r.tl.2 (min SolidSearchBlock r.width)
      (min SolidSearchBlock r.height)) = true) :
    let er := extendSolidAreaByBlock solid r
    er.tl = r.tl ∧ er.enclosedBy r ∧ (er.tl.1 < er.br.1 ∧ er.tl.2 < er.br.2) ∧
      ∀ p ∈ Region.ofRect er, P p := by
  have hstart : Extending P r r.tl.2 r.width (0, 0) := by
    refine ⟨hwidth, le_rfl, fun p hp => ?_, ⟨le_rfl, le_rfl⟩, ⟨hwidth.le, hheight.le⟩,
      fun p hp => ?_⟩
    · obtain ⟨-, hup, hdown⟩ := Region.mem_ofRect.mp hp
      exact absurd (lt_min_iff.mp hdown).1 (not_lt.mpr hup)
    · obtain ⟨-, hup, hdown⟩ := Region.mem_ofRect.mp hp
      dsimp only at hup hdown
      omega
  -- the first line of blocks gives the first area
  have hres : (∃ dy' w', Extending P r dy' w'
      (extendBlocks solid r (strides SolidSearchBlock r.tl.2 r.br.2) (r.width, 0, 0))) ∧
      0 < (extendBlocks solid r (strides SolidSearchBlock r.tl.2 r.br.2) (r.width, 0, 0)).1 *
        (extendBlocks solid r (strides SolidSearchBlock r.tl.2 r.br.2) (r.width, 0, 0)).2 := by
    obtain ⟨n, hn⟩ : ∃ n, (r.br.2 - r.tl.2).toNat = n + 1 :=
      Nat.exists_eq_succ_of_ne_zero (by unfold Rect.height at hheight; omega)
    have htop : r.tl.2 < r.br.2 := sub_pos.mp hheight
    have hblock : SolidSearchBlock = 16 := rfl
    obtain ⟨-, hnew⟩ := hstart.step hsolid le_rfl htop hfirst
    obtain ⟨hend, hle⟩ := extendBlocks_spec hsolid (n := n) hnew
      (show r.tl.2 ≤ r.tl.2 + SolidSearchBlock by omega)
    have hpos := Int.mul_pos hnew.width_pos
      (show 0 < r.tl.2 + min SolidSearchBlock (r.br.2 - r.tl.2) - r.tl.2 by omega)
    have hpass : (!solid (Rect.ofXYWH r.tl.1 r.tl.2 (min SolidSearchBlock r.width)
        (min SolidSearchBlock (r.br.2 - r.tl.2)))) = false := congrArg Bool.not hfirst
    rw [strides, hn, stridesFrom, if_pos htop, extendBlocks]
    dsimp only
    rw [hpass, if_neg Bool.false_ne_true, zero_mul, if_pos hpos]
    exact ⟨hend, hpos.trans_le hle⟩
  obtain ⟨⟨dy', w', hend⟩, hpos⟩ := hres
  obtain ⟨hcols, hrows⟩ := hend.best_nonneg
  have hcols' := lt_of_le_of_ne hcols (left_ne_zero_of_mul hpos.ne').symm
  have hrows' := lt_of_le_of_ne hrows (right_ne_zero_of_mul hpos.ne').symm
  obtain ⟨hright, hbottom⟩ := hend.best_le
  refine ⟨rfl, ⟨le_rfl, le_rfl, add_le_of_le_sub_left hright, add_le_of_le_sub_left hbottom⟩,
    ⟨lt_add_of_pos_right _ hcols', lt_add_of_pos_right _ hrows'⟩, hend.found⟩

/-- All four sides are moved outwards, inside the rectangle. -/
theorem extendSolidAreaByPixel_spec (hsolid : Sound solid P r.tl) (hin : sr.enclosedBy r)
    (hne : sr.tl.1 < sr.br.1 ∧ sr.tl.2 < sr.br.2) (hP : ∀ p ∈ Region.ofRect sr, P p) :
    let er := extendSolidAreaByPixel solid r sr
    er.enclosedBy r ∧ (er.tl.1 < er.br.1 ∧ er.tl.2 < er.br.2) ∧ ∀ p ∈ Region.ofRect er, P p := by
  intro er
  obtain ⟨hl, ht, hr, hb⟩ := hin
  let line := fun cy => solid (Rect.ofXYWH sr.tl.1 cy sr.width 1)
  let column := fun cx => solid (Rect.ofXYWH cx er.tl.2 1 (er.br.2 - er.tl.2))
  obtain ⟨htop, htop'⟩ : r.tl.2 ≤ er.tl.2 ∧ er.tl.2 ≤ sr.tl.2 := strideStopDown_le ht line
  obtain ⟨hbottom, hbottom'⟩ : sr.br.2 ≤ er.br.2 ∧ er.br.2 ≤ r.br.2 :=
    strideStop_le one_pos hb line
  obtain ⟨hleft, hleft'⟩ : r.tl.1 ≤ er.tl.1 ∧ er.tl.1 ≤ sr.tl.1 := strideStopDown_le hl column
  obtain ⟨hright, hright'⟩ : sr.br.1 ≤ er.br.1 ∧ er.br.1 ≤ r.br.1 :=
    strideStop_le one_pos hr column
  -- first the lines above and below, then whole columns
  have hlines : ∀ p : Point, sr.tl.1 ≤ p.1 → p.1 < sr.br.1 → er.tl.2 ≤ p.2 → p.2 < er.br.2 →
      P p := by
    intro p hpl hpr hpt hpb
    have hline : r.tl.2 ≤ p.2 → line p.2 = true → P p := fun hup hpass =>
      hsolid (Rect.ofXYWH sr.tl.1 p.2 sr.width 1) hl hup hpass p (Region.mem_ofRect.mpr
        ⟨⟨hpl, show p.1 < sr.tl.1 + (sr.br.1 - sr.tl.1) by omega⟩, le_rfl, Int.lt_succ p.2⟩)
    by_cases habove : p.2 < sr.tl.2
    · exact hline (htop.trans hpt) (of_strideStopDown_le hpt habove ht)
    by_cases hbelow : sr.br.2 ≤ p.2
    · obtain ⟨s, -, hsp, hps, -, hpass⟩ := of_lt_strideStop one_pos hbelow hpb hb
      obtain rfl : s = p.2 := by omega
      exact hline (by omega) hpass
    · exact hP p (Region.mem_ofRect.mpr ⟨⟨hpl, hpr⟩, not_lt.mp habove, not_le.mp hbelow⟩)
  refine ⟨⟨hleft, htop, hright', hbottom'⟩, ⟨by omega, by omega⟩, fun p hp => ?_⟩
  obtain ⟨⟨hpl, hpr⟩, hpt, hpb⟩ := Region.mem_ofRect.mp hp
  have hcolumn : r.tl.1 ≤ p.1 → column p.1 = true → P p := fun hfrom hpass =>
    hsolid (Rect.ofXYWH p.1 er.tl.2 1 (er.br.2 - er.tl.2)) hfrom htop hpass p
      (Region.mem_ofRect.mpr
        ⟨⟨le_rfl, Int.lt_succ p.1⟩, hpt, show p.2 < er.tl.2 + (er.br.2 - er.tl.2) by omega⟩)
  by_cases hbefore : p.1 < sr.tl.1
  · exact hcolumn (hleft.trans hpl) (of_strideStopDown_le hpl hbefore hl)
  by_cases hbehind : sr.br.1 ≤ p.1
  · obtain ⟨s, -, hsp, hps, -, hpass⟩ := of_lt_strideStop one_pos hbehind hpr hr
    obtain rfl : s = p.1 := by omega
    exact hcolumn (by omega) hpass
  · exact hlines p (not_lt.mp hbefore) (not_le.mp hbehind) hpt hpb

end Extend

/-! ## What is found -/

section Search

variable {pb : PixelBuffer C} {convert : C → D} {rect : Rect} {s : SolidRect D}

theorem Sound.mono {solid : Rect → Bool} {P : Point → Prop} {lo lo' : Point}
    (h : Sound solid P lo) (hx : lo.1 ≤ lo'.1) (hy : lo.2 ≤ lo'.2) : Sound solid P lo' :=
  fun t htx hty => h t (hx.trans htx) (hy.trans hty)

theorem sound_checkSolidTile {colourValue : C} {lo : Point} (hx : 0 ≤ lo.1) (hy : 0 ≤ lo.2) :
    Sound (checkSolidTile pb colourValue) (fun p => pb.pixel p = colourValue) lo :=
  fun _ htx hty hpass => (checkSolidTile_iff (hx.trans htx) (hy.trans hty)).mp hpass

theorem solidAt_spec {dx dy : ℤ} (hx : rect.tl.1 ≤ dx ∧ dx < rect.br.1)
    (hy : rect.tl.2 ≤ dy ∧ dy < rect.br.2) (h : solidAt pb convert rect dx dy = some s) :
    s.colour = convert (pb.pixel (dx, dy)) ∧
      ∀ P, Sound (checkSolidTile pb (pb.pixel (dx, dy))) P rect.tl →
        s.rect.enclosedBy rect ∧ (s.rect.tl.1 < s.rect.br.1 ∧ s.rect.tl.2 < s.rect.br.2) ∧
          ∀ p ∈ Region.ofRect s.rect, P p := by
  unfold solidAt at h
  dsimp only at h
  split at h
  case isFalse => cases h
  case isTrue hblock =>
    have hextend : ∀ P, Sound (checkSolidTile pb (pb.pixel (dx, dy))) P rect.tl →
        let erb := extendSolidAreaByBlock (checkSolidTile pb (pb.pixel (dx, dy)))
          ⟨(dx, dy), rect.br⟩
        erb.enclosedBy rect ∧ (erb.tl.1 < erb.br.1 ∧ erb.tl.2 < erb.br.2) ∧
          ∀ p ∈ Region.ofRect erb, P p := by
      intro P hP
      obtain ⟨htl, ⟨-, -, hright, hbottom⟩, hne, hpixels⟩ :=
        extendSolidAreaByBlock_spec (r := ⟨(dx, dy), rect.br⟩) (hP.mono hx.1 hy.1)
          (sub_pos.mpr hx.2) (sub_pos.mpr hy.2) hblock
      exact ⟨⟨htl ▸ hx.1, htl ▸ hy.1, hright, hbottom⟩, hne, hpixels⟩
    split at h
    · obtain rfl := Option.some.inj h
      exact ⟨rfl, hextend⟩
    split at h
    · cases h
    · obtain rfl := Option.some.inj h
      refine ⟨rfl, fun P hP => ?_⟩
      obtain ⟨hin, hne, hpixels⟩ := hextend P hP
      exact extendSolidAreaByPixel_spec hP hin hne hpixels

theorem of_firstSolid (h : firstSolid pb convert rect = some s) :
    ∃ dx dy, (rect.tl.1 ≤ dx ∧ dx < rect.br.1) ∧ (rect.tl.2 ≤ dy ∧ dy < rect.br.2) ∧
      solidAt pb convert rect dx dy = some s := by
  obtain ⟨⟨dx, dy⟩, hd, hs⟩ := List.exists_of_findSome?_eq_some h
  obtain ⟨y, hy, hd⟩ := List.mem_flatMap.mp hd
  obtain ⟨x, hx, hxy⟩ := List.mem_map.mp hd
  obtain ⟨rfl, rfl⟩ := Prod.mk.inj hxy
  exact ⟨x, y, (mem_strides searchBlock_pos hx).1, (mem_strides searchBlock_pos hy).1, hs⟩

/-- What is sent lies in the rectangle that is searched, and is not empty. -/
theorem firstSolid_enclosed (h : firstSolid pb convert rect = some s) :
    s.rect.enclosedBy rect ∧ s.rect.tl.1 < s.rect.br.1 ∧ s.rect.tl.2 < s.rect.br.2 := by
  obtain ⟨dx, dy, hx, hy, hs⟩ := of_firstSolid h
  obtain ⟨hin, hne, -⟩ := (solidAt_spec hx hy hs).2 (fun _ => True) fun _ _ _ _ _ _ => trivial
  exact ⟨hin, hne⟩

theorem firstSolid_colour (hx : 0 ≤ rect.tl.1) (hy : 0 ≤ rect.tl.2)
    (h : firstSolid pb convert rect = some s) :
    ∀ p ∈ Region.ofRect s.rect, convert (pb.pixel p) = s.colour := by
  obtain ⟨dx, dy, hdx, hdy, hs⟩ := of_firstSolid h
  obtain ⟨hcolour, hspec⟩ := solidAt_spec hdx hdy hs
  obtain ⟨-, -, hpixels⟩ := hspec _ (sound_checkSolidTile hx hy)
  intro p hp
  rw [hcolour, hpixels p hp]

/-! ## The remaining areas -/

/-- The three areas that are searched do not meet what was found, nor each other. -/
theorem remaining_areas {erp : Rect} (hin : erp.enclosedBy rect)
    (hne : erp.tl.1 < erp.br.1 ∧ erp.tl.2 < erp.br.2) (p : Point) :
    (p ∈ Region.ofRect (leftOf rect erp) → p ∈ Region.ofRect rect ∧ p.1 < erp.tl.1 ∧
      erp.tl.2 ≤ p.2 ∧ p.2 < erp.br.2) ∧
    (p ∈ Region.ofRect (rightOf rect erp) → p ∈ Region.ofRect rect ∧ erp.br.1 ≤ p.1 ∧
      erp.tl.2 ≤ p.2 ∧ p.2 < erp.br.2) ∧
    (p ∈ Region.ofRect (below rect erp) → p ∈ Region.ofRect rect ∧ erp.br.2 ≤ p.2) := by
  obtain ⟨hl, ht, hr, hb⟩ := hin
  have hblock : SolidSearchBlock = 16 := rfl
  simp only [Region.mem_ofRect, leftOf, rightOf, below, Rect.ofXYWH, Rect.width, Rect.height]
  omega

/-- Each of them is smaller than the rectangle. -/
theorem card_lt_of_subset {erp t : Rect} (hin : erp.enclosedBy rect)
    (hne : erp.tl.1 < erp.br.1 ∧ erp.tl.2 < erp.br.2)
    (ht : ∀ p ∈ Region.ofRect t, p ∈ Region.ofRect rect ∧ p ∉ Region.ofRect erp) :
    (Region.ofRect t).card < (Region.ofRect rect).card := by
  obtain ⟨hl, htop, hr, hb⟩ := hin
  refine Finset.card_lt_card (Finset.ssubset_iff_of_subset (fun p hp => (ht p hp).1) |>.mpr ?_)
  refine ⟨erp.tl, Region.mem_ofRect.mpr ⟨⟨hl, by omega⟩, htop, by omega⟩, fun hp => (ht _ hp).2 ?_⟩
  exact Region.mem_ofRect.mpr ⟨⟨le_rfl, hne.1⟩, le_rfl, hne.2⟩

theorem card_leftOf (h : firstSolid pb convert rect = some s) :
    (Region.ofRect (leftOf rect s.rect)).card < (Region.ofRect rect).card := by
  obtain ⟨hin, hne⟩ := firstSolid_enclosed h
  refine card_lt_of_subset hin hne fun p hp => ?_
  obtain ⟨hrect, hleft, -⟩ := (remaining_areas hin hne p).1 hp
  exact ⟨hrect, fun hfound => by rw [Region.mem_ofRect] at hfound; omega⟩

theorem card_rightOf (h : firstSolid pb convert rect = some s) :
    (Region.ofRect (rightOf rect s.rect)).card < (Region.ofRect rect).card := by
  obtain ⟨hin, hne⟩ := firstSolid_enclosed h
  refine card_lt_of_subset hin hne fun p hp => ?_
  obtain ⟨hrect, hright, -⟩ := (remaining_areas hin hne p).2.1 hp
  exact ⟨hrect, fun hfound => by rw [Region.mem_ofRect] at hfound; omega⟩

theorem card_below (h : firstSolid pb convert rect = some s) :
    (Region.ofRect (below rect s.rect)).card < (Region.ofRect rect).card := by
  obtain ⟨hin, hne⟩ := firstSolid_enclosed h
  refine card_lt_of_subset hin hne fun p hp => ?_
  obtain ⟨hrect, hbelow⟩ := (remaining_areas hin hne p).2.2 hp
  exact ⟨hrect, fun hfound => by rw [Region.mem_ofRect] at hfound; omega⟩

end Search

/-! ## The recursion -/

section Recursion

variable (pb : PixelBuffer C) (convert : C → D)

/-- Send the first solid area and search what remains around it. -/
def findSolidRect (rect : Rect) (st : SolidState D) : SolidState D :=
  match _hs : firstSolid pb convert rect with
  | none => st
  | some s =>
    let st : SolidState D := (st.1 \ Region.ofRect s.rect, st.2 ++ [s])
    -- Left?
    let st := if s.rect.tl.1 ≠ rect.tl.1 ∧ s.rect.height > SolidSearchBlock then
        findSolidRect (leftOf rect s.rect) st
      else st
    -- Right?
    let st := if s.rect.br.1 ≠ rect.br.1 then findSolidRect (rightOf rect s.rect) st else st
    -- Below?
    if s.rect.br.2 ≠ rect.br.2 then findSolidRect (below rect s.rect) st else st
termination_by (Region.ofRect rect).card
decreasing_by
  · exact card_leftOf _hs
  · exact card_rightOf _hs
  · exact card_below _hs

/-- The search goes through the rectangles that the region had at the start. -/
def writeSolidRects (changed : Region) : SolidState D :=
  (changed.getRects true true).foldl (fun st rect => findSolidRect pb convert rect st)
    (changed, [])

variable {pb convert}

theorem findSolidRect_extracts {rect : Rect} (hx : 0 ≤ rect.tl.1) (hy : 0 ≤ rect.tl.2)
    (st : SolidState D) :
    Extracts pb convert (Region.ofRect rect) st (findSolidRect pb convert rect st) := by
  induction hcard : (Region.ofRect rect).card using Nat.strong_induction_on
    generalizing rect st with
  | h n ih =>
    subst hcard
    rw [findSolidRect]
    split
    case h_1 => exact Extracts.refl _ st
    case h_2 s hs =>
      obtain ⟨hin, hne⟩ := firstSolid_enclosed hs
      have hareas := remaining_areas hin hne
      have hsearch : ∀ t : Rect, (Region.ofRect t).card < (Region.ofRect rect).card →
          0 ≤ t.tl.1 → 0 ≤ t.tl.2 → ∀ st,
          Extracts pb convert (Region.ofRect t) st (findSolidRect pb convert t st) :=
        fun t hlt htx hty st => ih _ hlt htx hty st rfl
      have hleft := hsearch (leftOf rect s.rect) (card_leftOf hs) hx
        (show 0 ≤ s.rect.tl.2 + 16 by have := hin.2.1; omega)
      have hright := hsearch (rightOf rect s.rect) (card_rightOf hs)
        (show 0 ≤ s.rect.br.1 by have := hin.1; omega)
        (show 0 ≤ s.rect.tl.2 by have := hin.2.1; omega)
      have hbelow := hsearch (below rect s.rect) (card_below hs) hx
        (show 0 ≤ s.rect.br.2 by have := hin.2.1; omega)
      have hfound := extracts_single (firstSolid_colour hx hy hs) st
      have hinside : ∀ p ∈ Region.ofRect s.rect, p ∈ Region.ofRect rect := by
        intro p hp
        obtain ⟨hl, ht, hr, hb⟩ := hin
        rw [Region.mem_ofRect] at hp ⊢
        omega
      refine Extracts.mono (((hfound.trans ((hleft _).ite
          (s.rect.tl.1 ≠ rect.tl.1 ∧ s.rect.height > SolidSearchBlock)) ?_).trans
        ((hright _).ite (s.rect.br.1 ≠ rect.br.1)) ?_).trans
        ((hbelow _).ite (s.rect.br.2 ≠ rect.br.2)) ?_) ?_
      · refine Finset.disjoint_left.mpr fun p hp hp' => ?_
        have hl := ((hareas p).1 hp').2.1
        rw [Region.mem_ofRect] at hp
        omega
      · refine Finset.disjoint_left.mpr fun p hp hp' => ?_
        have hr := ((hareas p).2.1 hp').2.1
        rcases Finset.mem_union.mp hp with hp | hp
        · rw [Region.mem_ofRect] at hp
          omega
        · have hl := ((hareas p).1 hp).2.1
          omega
      · refine Finset.disjoint_left.mpr fun p hp hp' => ?_
        have hb := ((hareas p).2.2 hp').2
        rcases Finset.mem_union.mp hp with hp | hp
        · rcases Finset.mem_union.mp hp with hp | hp
          · rw [Region.mem_ofRect] at hp
            omega
          · have hl := ((hareas p).1 hp).2.2.2
            omega
        · have hr := ((hareas p).2.1 hp).2.2.2
          omega
      · refine Finset.union_subset (Finset.union_subset (Finset.union_subset hinside ?_) ?_) ?_
        · exact fun p hp => ((hareas p).1 hp).1
        · exact fun p hp => ((hareas p).2.1 hp).1
        · exact fun p hp => ((hareas p).2.2 hp).1

/-- One rectangle after another. -/
theorem foldl_findSolidRect_extracts {rects : List Rect}
    (hpos : ∀ r ∈ rects, 0 ≤ r.tl.1 ∧ 0 ≤ r.tl.2)
    (hdisj : rects.Pairwise fun r t => Disjoint (Region.ofRect r) (Region.ofRect t)) :
    ∀ st : SolidState D, Extracts pb convert (rects.toFinset.biUnion Region.ofRect) st
      (rects.foldl (fun st rect => findSolidRect pb convert rect st) st) := by
  induction rects with
  | nil => exact fun st => Extracts.refl _ st
  | cons r rects ih =>
    intro st
    obtain ⟨hfirst, hrest⟩ := List.pairwise_cons.mp hdisj
    obtain ⟨hx, hy⟩ := hpos r List.mem_cons_self
    have hapart : Disjoint (Region.ofRect r) (rects.toFinset.biUnion Region.ofRect) :=
      (Finset.disjoint_biUnion_right _ _ _).mpr fun t ht => hfirst t (List.mem_toFinset.mp ht)
    rw [List.toFinset_cons, Finset.biUnion_insert]
    exact (findSolidRect_extracts hx hy st).trans
      (ih (fun t ht => hpos t (List.mem_cons_of_mem r ht)) hrest _) hapart

theorem writeSolidRects_extracts (convert : C → D) {changed : Region}
    (hin : changed ⊆ Region.ofRect pb.getRect) :
    Extracts pb convert changed (changed, []) (writeSolidRects pb convert changed) := by
  refine (foldl_findSolidRect_extracts (fun r hr => ?_) (Region.getRects_disjoint changed true true)
    (changed, [])).mono ?_
  · obtain ⟨hwidth, hheight⟩ := Region.getRects_nonempty hr
    have hcorner := hin (Region.mem_getRects.mp
      ⟨r, hr, Region.mem_ofRect.mpr ⟨⟨le_rfl, hwidth⟩, le_rfl, hheight⟩⟩)
    obtain ⟨⟨hx, -⟩, hy, -⟩ := Region.mem_ofRect.mp hcorner
    exact ⟨hx, hy⟩
  · intro p hp
    obtain ⟨r, hr, hp⟩ := Finset.mem_biUnion.mp hp
    exact Region.mem_getRects.mp ⟨r, List.mem_toFinset.mp hr, hp⟩

/-- **Solid areas.** The search ends: each recursion is for fewer pixels. What it sends does
not overlap, lies in the changed region and has the colour that is sent, and what it leaves
is the rest of the region. -/
theorem solid_areas_extracted {changed : Region} (hin : changed ⊆ Region.ofRect pb.getRect) :
    let res := writeSolidRects pb convert changed
    (res.2.Pairwise fun s t => Disjoint (Region.ofRect s.rect) (Region.ofRect t.rect)) ∧
      (∀ s ∈ res.2, Region.ofRect s.rect ⊆ changed ∧
        ∀ p ∈ Region.ofRect s.rect, convert (pb.pixel p) = s.colour) ∧
      ∀ p, p ∈ res.1 ↔ p ∈ changed ∧ ∀ s ∈ res.2, p ∉ Region.ofRect s.rect := by
  obtain ⟨found, h⟩ := writeSolidRects_extracts convert hin
  dsimp only
  rw [show (writeSolidRects pb convert changed).2 = found from h.sent]
  exact ⟨h.disjoint, fun s hs => ⟨h.inside s hs, h.colour s hs⟩, h.changed⟩

end Recursion

/-- A buffer of one colour. -/
def blankBuffer : PixelBuffer (BitVec 8) where
  width := 4
  height := 4
  stride := 4
  data := fun _ => 0
  width_lt := by decide

theorem solid_areas_extracted_blank :
    let res := writeSolidRects blankBuffer id (Region.ofRect blankBuffer.getRect)
    (res.2.Pairwise fun s t => Disjoint (Region.ofRect s.rect) (Region.ofRect t.rect)) ∧
      (∀ s ∈ res.2, Region.ofRect s.rect ⊆ Region.ofRect blankBuffer.getRect ∧
        ∀ p ∈ Region.ofRect s.rect, blankBuffer.pixel p = s.colour) ∧
      ∀ p, p ∈ res.1 ↔ p ∈ Region.ofRect blankBuffer.getRect ∧
        ∀ s ∈ res.2, p ∉ Region.ofRect s.rect :=
  solid_areas_extracted (Finset.Subset.refl _)

/-- With this search as the parameter of `doUpdate`, the tiles are cut out of what it leaves. -/
theorem remaining_eq_writeSolidRects {ctx : EncodeContext} {pb : PixelBuffer C} {convert : C → D}
    {changed : Region} (hin : changed ⊆ Region.ofRect pb.getRect)
    (hsearch : ctx.solidRects = fun changed =>
      (writeSolidRects pb convert changed).2.map SolidRect.rect)
    (hlast : ctx.cp.supportsLastRect = true) (hqoi : ctx.cp.supportsQOI = false)
    (hvideo : videoFrames ctx changed = none) :
    remaining ctx changed = (writeSolidRects pb convert changed).1 := by
  obtain ⟨found, h⟩ := writeSolidRects_extracts convert hin
  have hsolid : solidPart ctx changed = found.map SolidRect.rect := by
    rw [solidPart, hlast, hqoi, hsearch]
    exact congrArg (List.map SolidRect.rect) h.sent
  have hsubtract : ∀ (rects : List Rect) (R : Region) (p : Point),
      p ∈ rects.foldl (fun region r => region \ Region.ofRect r) R ↔
        p ∈ R ∧ ∀ r ∈ rects, p ∉ Region.ofRect r := by
    intro rects
    induction rects with
    | nil => exact fun R p => ⟨fun hp => ⟨hp, fun r hr => absurd hr List.not_mem_nil⟩, And.left⟩
    | cons r rects ih =>
      intro R p
      rw [List.foldl_cons, ih, Finset.mem_sdiff, List.forall_mem_cons, and_assoc]
  ext p
  rw [remaining, hvideo, h.changed]
  dsimp only
  rw [hsolid, hsubtract, List.forall_mem_map]

end EncodeManager

end KasmVNC.Rfb
