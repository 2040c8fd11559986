import KasmVNC.Lib.Raster
import KasmVNC.Lib.Strides
import KasmVNC.Rfb.Region

/-!
# Pixel buffers and tiles

The encodings cut a rectangle into square tiles, row by row from the top left
corner; the tiles at the right and at the bottom may be smaller. An encoder reads
the tiles of a buffer that starts at the origin, and a decoder puts them into a
frame at the position of the rectangle.
-/

namespace KasmVNC.Rfb

open KasmVNC.Lib

variable {α β : Type*}

/-- What `preparePixelBuffer` hands to an encoder for a rectangle: a `PixelBuffer` that
starts at the origin. -/
structure PreparedBuffer (α : Type*) where
  width : ℕ
  height : ℕ
  pixel : Point → α

namespace PreparedBuffer

def getRect (pb : PreparedBuffer α) : Rect := ⟨(0, 0), (pb.width, pb.height)⟩

/-- The pixels `getImage` copies out for a rectangle. -/
def getImage (pb : PreparedBuffer α) (t : Rect) : Block α := fun x y =>
  pb.pixel (t.tl.1 + x, t.tl.2 + y)

/-- All pixels, row by row. -/
def pixels (pb : PreparedBuffer α) : List α := raster pb.width pb.height (pb.getImage pb.getRect)

end PreparedBuffer

/-- `imageRect`: replace the pixels of a rectangle of a frame. -/
def imageRect (t : Rect) (image : Block α) (frame : Point → α) : Point → α := fun p =>
  if p ∈ Region.ofRect t then image (p.1 - t.tl.1).toNat (p.2 - t.tl.2).toNat else frame p

namespace Rect

/-- The turns of the two nested loops over a rectangle. -/
def tiles (size : ℤ) (r : Rect) : List Rect :=
  (strides size r.tl.2 r.br.2).flatMap fun y =>
    (strides size r.tl.1 r.br.1).map fun x =>
      ⟨(x, y), (min (x + size) r.br.1, min (y + size) r.br.2)⟩

/-- Width and height as numbers of pixels. -/
def cols (t : Rect) : ℕ := t.width.toNat

def rows (t : Rect) : ℕ := t.height.toNat

section Tiles

variable {size : ℤ} {r t : Rect}

theorem mem_tiles : t ∈ r.tiles size ↔
    ∃ x ∈ strides size r.tl.1 r.br.1, ∃ y ∈ strides size r.tl.2 r.br.2,
      t = ⟨(x, y), (min (x + size) r.br.1, min (y + size) r.br.2)⟩ := by
  simp only [tiles, List.mem_flatMap, List.mem_map]
  constructor
  · rintro ⟨y, hy, x, hx, rfl⟩
    exact ⟨x, hx, y, hy, rfl⟩
  · rintro ⟨x, hx, y, hy, rfl⟩
    exact ⟨y, hy, x, hx, rfl⟩

/-- A tile is not empty and not larger than the tile size. -/
theorem tile_bounds (hsize : 0 < size) (ht : t ∈ r.tiles size) :
    (0 < t.cols ∧ (t.cols : ℤ) ≤ size) ∧ 0 < t.rows ∧ (t.rows : ℤ) ≤ size := by
  obtain ⟨x, hx, y, hy, rfl⟩ := mem_tiles.mp ht
  obtain ⟨⟨-, hxhi⟩, -⟩ := mem_strides hsize hx
  obtain ⟨⟨-, hyhi⟩, -⟩ := mem_strides hsize hy
  simp only [cols, rows, width, height]
  omega

/-- Every pixel of the rectangle lies in a tile. -/
theorem exists_tile (hsize : 0 < size) {p : Point} (hp : p ∈ Region.ofRect r) :
    ∃ t ∈ r.tiles size, p ∈ Region.ofRect t := by
  obtain ⟨⟨hxlo, hxhi⟩, hylo, hyhi⟩ := Region.mem_ofRect.mp hp
  obtain ⟨x, hx, hxle, hxlt⟩ := exists_mem_strides hsize hxlo hxhi
  obtain ⟨y, hy, hyle, hylt⟩ := exists_mem_strides hsize hylo hyhi
  refine ⟨_, mem_tiles.mpr ⟨x, hx, y, hy, rfl⟩, Region.mem_ofRect.mpr ?_⟩
  simp only [lt_min_iff]
  exact ⟨⟨hxle, hxlt, hxhi⟩, hyle, hylt, hyhi⟩

/-- A tile lies in its rectangle. -/
theorem tile_subset (hsize : 0 < size) (ht : t ∈ r.tiles size) {p : Point}
    (hp : p ∈ Region.ofRect t) : p ∈ Region.ofRect r := by
  obtain ⟨x, hx, y, hy, rfl⟩ := mem_tiles.mp ht
  obtain ⟨⟨hxlo, -⟩, -⟩ := mem_strides hsize hx
  obtain ⟨⟨hylo, -⟩, -⟩ := mem_strides hsize hy
  rw [Region.mem_ofRect] at hp ⊢
  simp only [lt_min_iff] at hp
  omega

/-- The tiles of a moved rectangle are the moved tiles. -/
theorem tiles_translate (size : ℤ) (r : Rect) (d : Point) :
    (r.translate d).tiles size = (r.tiles size).map (·.translate d) := by
  simp only [tiles, translate, Prod.fst_add, Prod.snd_add, strides_add, List.flatMap_map,
    List.map_flatMap, List.map_map]
  refine congrArg (fun f => (strides size r.tl.2 r.br.2).flatMap f) (funext fun y => ?_)
  refine congrArg (fun f => (strides size r.tl.1 r.br.1).map f) (funext fun x => ?_)
  show (⟨(x + d.1, y + d.2), (min (x + d.1 + size) (r.br.1 + d.1),
    min (y + d.2 + size) (r.br.2 + d.2))⟩ : Rect) =
    ⟨(x, y) + d, (min (x + size) r.br.1, min (y + size) r.br.2) + d⟩
  have hx : min (x + d.1 + size) (r.br.1 + d.1) = min (x + size) r.br.1 + d.1 := by omega
  have hy : min (y + d.2 + size) (r.br.2 + d.2) = min (y + size) r.br.2 + d.2 := by omega
  rw [hx, hy]
  rfl

@[simp] theorem cols_translate (t : Rect) (d : Point) : (t.translate d).cols = t.cols := by
  simp only [cols, width, translate, Prod.fst_add]
  omega

@[simp] theorem rows_translate (t : Rect) (d : Point) : (t.translate d).rows = t.rows := by
  simp only [rows, height, translate, Prod.snd_add]
  omega

end Tiles

end Rect

@[simp] theorem PreparedBuffer.cols_getRect (pb : PreparedBuffer α) :
    pb.getRect.cols = pb.width := by
  simp [PreparedBuffer.getRect, Rect.cols, Rect.width]

@[simp] theorem PreparedBuffer.rows_getRect (pb : PreparedBuffer α) :
    pb.getRect.rows = pb.height := by
  simp [PreparedBuffer.getRect, Rect.rows, Rect.height]

/-- The pixels of a tile are pixels of the buffer. -/
theorem PreparedBuffer.getImage_mem {pb : PreparedBuffer α} {size : ℤ} (hsize : 0 < size) {t : Rect}
    (ht : t ∈ pb.getRect.tiles size) {x y : ℕ} (hx : x < t.cols) (hy : y < t.rows) :
    pb.getImage t x y ∈ pb.pixels := by
  have hmem : (t.tl.1 + (x : ℤ), t.tl.2 + (y : ℤ)) ∈ Region.ofRect t := by
    rw [Region.mem_ofRect]
    simp only [Rect.cols, Rect.width, Rect.rows, Rect.height] at hx hy
    dsimp only
    omega
  have hrect := Region.mem_ofRect.mp (Rect.tile_subset hsize ht hmem)
  simp only [PreparedBuffer.getRect] at hrect
  refine mem_raster.mpr ⟨(t.tl.1 + x).toNat, by omega, (t.tl.2 + y).toNat, by omega, ?_⟩
  have hpoint : (pb.getRect.tl.1 + ((t.tl.1 + (x : ℤ)).toNat : ℤ),
      pb.getRect.tl.2 + ((t.tl.2 + (y : ℤ)).toNat : ℤ)) = (t.tl.1 + (x : ℤ), t.tl.2 + (y : ℤ)) :=
    Prod.ext (by simp only [PreparedBuffer.getRect]; omega)
      (by simp only [PreparedBuffer.getRect]; omega)
  unfold PreparedBuffer.getImage
  rw [hpoint]

/-! ## Frames -/

/-- The frame shows the buffer at an offset wherever one of the tiles lies, up to a
relation between pixels, and is unchanged elsewhere. -/
structure Shown (E : α → β → Prop) (pb : PreparedBuffer β) (d : Point) (ts : List Rect)
    (before after : Point → α) : Prop where
  inside : ∀ t ∈ ts, ∀ p ∈ Region.ofRect t, E (after (p + d)) (pb.pixel p)
  outside : ∀ p, (∀ t ∈ ts, p ∉ Region.ofRect t) → after (p + d) = before (p + d)

theorem mem_ofRect_translate {t : Rect} {d p : Point} :
    p + d ∈ Region.ofRect (t.translate d) ↔ p ∈ Region.ofRect t := by
  simp only [Region.mem_ofRect, Rect.translate, Prod.fst_add, Prod.snd_add, add_le_add_iff_right,
    add_lt_add_iff_right]

theorem shown_nil {E : α → β → Prop} {pb : PreparedBuffer β} {d : Point} {frame : Point → α} :
    Shown E pb d [] frame frame :=
  ⟨(fun _ ht => nomatch ht), fun _ _ => rfl⟩

/-- A tile whose pixels match, put into the frame before the others. -/
theorem Shown.cons {E : α → β → Prop} {pb : PreparedBuffer β} {d : Point} {t : Rect}
    {ts : List Rect} {frame after : Point → α} {image : Block α}
    (himage : ∀ x < t.cols, ∀ y < t.rows, E (image x y) (pb.getImage t x y))
    (h : Shown E pb d ts (imageRect (t.translate d) image frame) after) :
    Shown E pb d (t :: ts) frame after := by
  constructor
  · intro u hu p hp
    by_cases hlater : ∃ v ∈ ts, p ∈ Region.ofRect v
    · obtain ⟨v, hv, hpv⟩ := hlater
      exact h.inside v hv p hpv
    · have hut : u = t := by
        rcases List.mem_cons.mp hu with rfl | hu
        · rfl
        · exact absurd ⟨u, hu, hp⟩ hlater
      subst hut
      rw [h.outside p fun v hv hpv => hlater ⟨v, hv, hpv⟩, imageRect,
        if_pos (mem_ofRect_translate.mpr hp)]
      obtain ⟨⟨hxlo, hxhi⟩, hylo, hyhi⟩ := Region.mem_ofRect.mp hp
      have hx : (p + d).1 - (u.translate d).tl.1 = p.1 - u.tl.1 := by
        simp only [Rect.translate, Prod.fst_add]
        omega
      have hy : (p + d).2 - (u.translate d).tl.2 = p.2 - u.tl.2 := by
        simp only [Rect.translate, Prod.snd_add]
        omega
      have hmatch := himage (p.1 - u.tl.1).toNat
        (by simp only [Rect.cols, Rect.width]; omega) (p.2 - u.tl.2).toNat
        (by simp only [Rect.rows, Rect.height]; omega)
      rw [hx, hy]
      have hpoint : (u.tl.1 + ((p.1 - u.tl.1).toNat : ℤ), u.tl.2 + ((p.2 - u.tl.2).toNat : ℤ)) =
          p := Prod.ext (by simp only; omega) (by simp only; omega)
      rw [PreparedBuffer.getImage, hpoint] at hmatch
      exact hmatch
  · intro p hp
    rw [h.outside p fun u hu => hp u (List.mem_cons_of_mem t hu), imageRect,
      if_neg fun hmem => hp t List.mem_cons_self (mem_ofRect_translate.mp hmem)]

/-- All tiles of a buffer together show the whole buffer. -/
theorem Shown.whole {E : α → β → Prop} {pb : PreparedBuffer β} {d : Point} {size : ℤ}
    (hsize : 0 < size) {before after : Point → α}
    (h : Shown E pb d (pb.getRect.tiles size) before after) :
    (∀ p ∈ Region.ofRect pb.getRect, E (after (p + d)) (pb.pixel p)) ∧
      ∀ p ∉ Region.ofRect pb.getRect, after (p + d) = before (p + d) := by
  constructor
  · intro p hp
    obtain ⟨t, ht, hpt⟩ := Rect.exists_tile hsize hp
    exact h.inside t ht p hpt
  · intro p hp
    exact h.outside p fun t ht hpt => hp (Rect.tile_subset hsize ht hpt)

/-- An image of the whole buffer, put into the frame at once. -/
theorem shown_whole_image {E : α → β → Prop} {pb : PreparedBuffer β} {d : Point}
    {image : Block α} (frame : Point → α)
    (himage : ∀ x < pb.width, ∀ y < pb.height, E (image x y) (pb.getImage pb.getRect x y)) :
    (∀ p ∈ Region.ofRect pb.getRect,
      E (imageRect (pb.getRect.translate d) image frame (p + d)) (pb.pixel p)) ∧
    ∀ p ∉ Region.ofRect pb.getRect,
      imageRect (pb.getRect.translate d) image frame (p + d) = frame (p + d) := by
  have hshown : Shown E pb d [pb.getRect] frame
      (imageRect (pb.getRect.translate d) image frame) := by
    rw [← pb.cols_getRect, ← pb.rows_getRect] at himage
    exact Shown.cons himage shown_nil
  refine ⟨fun p hp => hshown.inside _ List.mem_cons_self p hp, fun p hp => ?_⟩
  refine hshown.outside p fun t ht => ?_
  rw [List.mem_singleton] at ht
  rwa [ht]

end KasmVNC.Rfb
