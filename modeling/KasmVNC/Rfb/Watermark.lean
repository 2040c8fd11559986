import KasmVNC.Lib.Memory
import KasmVNC.Lib.Wrapping

/-!
# Placing the watermark

The watermark image is copied row by row to a picture of the size of the screen, once at its
place or again and again. The counters of the loops and the place are 16-bit integers. Then two
pixels are packed into a byte each.
-/

namespace KasmVNC.Rfb.Watermark

open KasmVNC.Lib

/-! ## The picture -/

def MAXW : ℕ := 4096
def MAXH : ℕ := 4096

/-- `watermarkInfo`. The image has `w * h` bytes. -/
structure WatermarkInfo where
  w : UInt16
  h : UInt16
  x : Int16
  y : Int16
  repeat_ : UInt16

/-- A `memcpy` from an offset in the image to a row and a column of the picture. Its length is
what is computed, even if that is negative. -/
structure Copy where
  y : ℕ
  x : ℕ
  src : ℕ
  length : ℤ

variable (info : WatermarkInfo) (rw rh : UInt16)

/-- The part of a row of the image that is not behind the right edge. -/
def copyRow (y x srcy : ℕ) : Copy where
  y := y
  x := x
  src := srcy * info.w.toNat
  length := if x + info.w.toNat < rw.toNat then info.w.toNat else (rw.toNat : ℤ) - x

/-! ### Repeating -/

def nextColumn (x : ℕ) : ℕ := (x + (info.w.toNat + info.repeat_.toNat)) % 65536

/-- The row of the picture and the row of the image that come next. -/
def nextRow (s : ℕ × ℕ) : ℕ × ℕ :=
  let srcy := (s.2 + 1) % 65536
  if srcy = info.h.toNat then (((s.1 + info.repeat_.toNat) % 65536 + 1) % 65536, 0)
  else ((s.1 + 1) % 65536, srcy)

def repeatRow (fuel : ℕ) (s : ℕ × ℕ) : Option (List Copy) :=
  loop (· < rw.toNat) (nextColumn info) (fun x => some [copyRow info rw s.1 x s.2]) fuel 0

def repeatCopies (fuel : ℕ) : Option (List Copy) :=
  loop (fun s => s.1 < rh.toNat) (nextRow info) (repeatRow info rw fuel) fuel (0, 0)

/-! ### Placing -/

/-- The place for an offset: in the middle, from the left or the top, or from the other side. -/
def place (offset : Int16) (screen size : UInt16) : ℕ :=
  let s : Int16 :=
    if offset = 0 then Int16.ofInt (((screen.toNat : ℤ) - size.toNat).tdiv 2)
    else if offset > 0 then offset
    else Int16.ofInt ((screen.toNat : ℤ) - size.toNat + offset.toInt)
  s.toInt.toNat

def sx : ℕ := place info.x rw info.w

def sy : ℕ := place info.y rh info.h

def placeCopies : List Copy :=
  (List.range info.h.toNat).map fun y => copyRow info rw (sy info rh + y) (sx info rw) y

/-- The copies of `updateWatermark`, if its loops end. -/
def copies (fuel : ℕ) : Option (List Copy) :=
  if info.repeat_ ≠ 0 then repeatCopies info rw rh fuel else some (placeCopies info rw rh)

/-- The picture: it is cleared, and then the image is copied to it. -/
def unpacked (src picture : Memory Byte) (cs : List Copy) : Memory Byte :=
  cs.foldl (fun m c => m.store ((c.y * rw.toNat + c.x : ℕ) : ℤ) (src.load c.src c.length.toNat))
    (picture.store 0 (List.replicate (rw.toNat * rh.toNat) 0))

/-! ### Packing -/

structure Packer where
  pix0 : Byte
  pix1 : Byte
  cur : Bool
  dst : List Byte

def Packer.put (p : Packer) (pixel : Byte) (last : Bool) : Packer :=
  let pix0 := if p.cur then p.pix0 else pixel
  let pix1 := if p.cur then pixel else p.pix1
  { pix0, pix1
    cur := !p.cur
    dst := if p.cur || last then p.dst ++ [pix0 ||| pix1 <<< 4] else p.dst }

/-- The bytes that `packWatermark` writes to `watermarkTmp`. The two pixels are not initialised. -/
def packWatermark (picture : Memory Byte) (pix0 pix1 : Byte) : List Byte :=
  let pixels := raster rw.toNat rh.toNat fun x y =>
    (picture ((y * rw.toNat + x : ℕ) : ℤ), decide (y = rh.toNat - 1 ∧ x = rw.toNat - 1))
  let packer : Packer := ⟨pix0, pix1, false, []⟩
  (pixels.foldl (fun p pixel => p.put pixel.1 pixel.2) packer).dst

/-! ## What is asked of it -/

/-- Inside the rows and the columns of the picture, and inside the image. -/
def Copy.InBounds (c : Copy) : Prop :=
  0 ≤ c.length ∧ (0 < c.length →
    c.y < rh.toNat ∧ c.x + c.length ≤ rw.toNat ∧ c.src + c.length ≤ info.w.toNat * info.h.toNat)

/-- The pixels of the watermark where the settings place it. -/
def Placed (x y : ℕ) : Prop :=
  if info.repeat_ ≠ 0 then
    x % (info.w.toNat + info.repeat_.toNat) < info.w.toNat ∧
      y % (info.h.toNat + info.repeat_.toNat) < info.h.toNat
  else
    (sx info rw ≤ x ∧ x < sx info rw + info.w.toNat) ∧
      sy info rh ≤ y ∧ y < sy info rh + info.h.toNat

/-- The loops end, all that is read and written is in bounds, and the other pixels are zero. -/
structure WellPlaced (cs : List Copy) : Prop where
  inBounds : ∀ c ∈ cs, c.InBounds info rw rh
  allocated : rw.toNat * rh.toNat ≤ MAXW * MAXH
  packed : ∀ picture pix0 pix1,
    (packWatermark rw rh picture pix0 pix1).length ≤ MAXW * (MAXH / 2)
  clear : ∀ src picture x y, x < rw.toNat → y < rh.toNat → ¬Placed info rw rh x y →
    unpacked rw rh src picture cs ((y * rw.toNat + x : ℕ) : ℤ) = 0

/-! ## Packing -/

/-- Of pixels that are not the last, two go to a byte. -/
theorem packer_foldl {pixels : List (Byte × Bool)} (hlast : ∀ pixel ∈ pixels, pixel.2 = false)
    (p : Packer) :
    2 * (pixels.foldl (fun p pixel => p.put pixel.1 pixel.2) p).dst.length +
        (pixels.foldl (fun p pixel => p.put pixel.1 pixel.2) p).cur.toNat =
      2 * p.dst.length + p.cur.toNat + pixels.length := by
  induction pixels generalizing p with
  | nil => rfl
  | cons pixel pixels ih =>
    rw [List.foldl_cons, ih (fun q hq => hlast q (List.mem_cons_of_mem pixel hq)),
      List.length_cons]
    have hfirst := hlast pixel List.mem_cons_self
    cases hcur : p.cur with
    | true => simp [Packer.put, hcur]; omega
    | false => simp [Packer.put, hcur, hfirst]; omega

/-- **Packing.** Two pixels go to a byte, and so does one that is left. -/
theorem length_packWatermark (picture : Memory Byte) (pix0 pix1 : Byte) :
    (packWatermark rw rh picture pix0 pix1).length = (rw.toNat * rh.toNat + 1) / 2 := by
  unfold packWatermark
  generalize rw.toNat = w, rh.toNat = h
  dsimp only
  rcases Nat.eq_zero_or_pos h with rfl | hh
  · simp [raster]
  rcases Nat.eq_zero_or_pos w with rfl | hw
  · have hnil : ∀ f : Block (Byte × Bool), raster 0 h f = [] :=
      fun f => List.length_eq_zero_iff.mp (length_raster 0 h f)
    rw [hnil, Nat.zero_mul]
    rfl
  obtain ⟨h, rfl⟩ := Nat.exists_eq_succ_of_ne_zero hh.ne'
  obtain ⟨w, rfl⟩ := Nat.exists_eq_succ_of_ne_zero hw.ne'
  rw [Nat.succ_eq_add_one, Nat.succ_eq_add_one, raster_succ, List.range_succ, List.map_append,
    ← List.append_assoc, List.map_singleton, List.foldl_append, List.foldl_cons, List.foldl_nil]
  have hpacked := @packer_foldl (raster (w + 1) h (fun x y =>
      (picture ((y * (w + 1) + x : ℕ) : ℤ), decide (y = h + 1 - 1 ∧ x = w + 1 - 1))) ++
    (List.range w).map fun x =>
      (picture ((h * (w + 1) + x : ℕ) : ℤ), decide (h = h + 1 - 1 ∧ x = w + 1 - 1))) ?_
    ⟨pix0, pix1, false, []⟩
  · generalize List.foldl _ _ _ = p at hpacked ⊢
    have hlength : h * (w + 1) + w + 1 = (w + 1) * (h + 1) := by ring
    simp only [List.length_append, length_raster, List.length_map, List.length_range,
      List.length_nil, Bool.toNat_false] at hpacked
    cases hcur : p.cur with
    | true => simp [Packer.put, hcur] at hpacked ⊢; omega
    | false => simp [Packer.put, hcur] at hpacked ⊢; omega
  · intro pixel hpixel
    rcases List.mem_append.mp hpixel with hpixel | hpixel
    · obtain ⟨x, -, y, hy, rfl⟩ := mem_raster.mp hpixel
      simp only [decide_eq_false_iff_not]
      omega
    · obtain ⟨x, hx, rfl⟩ := List.mem_map.mp hpixel
      have hlt := List.mem_range.mp hx
      simp only [decide_eq_false_iff_not]
      omega

/-! ## What is copied is seen, and nothing else -/

/-- The pixels that a copy writes. -/
def Copy.Covers (c : Copy) (x y : ℕ) : Prop := c.y = y ∧ c.x ≤ x ∧ (x : ℤ) < c.x + c.length

variable {info rw rh}

/-- The first pixel behind a row is the first pixel of the next. -/
theorem pixel_inj {w x y x' y' : ℕ} (hx : x < w) (hx' : x' < w) (h : y * w + x = y' * w + x') :
    y = y' ∧ x = x' := by
  have hy : y = y' := by
    have hdiv := congrArg (· / w) h
    simpa [Nat.mul_comm _ w, Nat.mul_add_div (Nat.zero_lt_of_lt hx), Nat.div_eq_of_lt hx,
      Nat.div_eq_of_lt hx'] using hdiv
  subst hy
  exact ⟨rfl, Nat.add_left_cancel h⟩

/-- A copy in bounds leaves alone what it does not cover. -/
theorem store_of_not_covers {c : Copy} (hc : c.InBounds info rw rh) {src m : Memory Byte} {x y : ℕ}
    (hx : x < rw.toNat) (hcovers : ¬c.Covers x y) :
    m.store ((c.y * rw.toNat + c.x : ℕ) : ℤ) (src.load c.src c.length.toNat)
      ((y * rw.toNat + x : ℕ) : ℤ) = m ((y * rw.toNat + x : ℕ) : ℤ) := by
  refine Memory.store_outside ?_
  rw [Memory.length_load]
  by_contra hin
  rw [not_or, Int.not_lt, Int.not_le] at hin
  obtain ⟨hlo, hhi⟩ := hin
  have hpos : 0 < c.length := by omega
  obtain ⟨hcy, hcx, -⟩ := hc.2 hpos
  -- the offset from the start of the copy is a column of its row
  obtain ⟨d, hd⟩ : ∃ d, y * rw.toNat + x = c.y * rw.toNat + (c.x + d) :=
    ⟨y * rw.toNat + x - (c.y * rw.toNat + c.x), by omega⟩
  have hcol : c.x + d < rw.toNat := by omega
  obtain ⟨hyy, hxx⟩ := pixel_inj hx hcol hd
  exact hcovers ⟨hyy.symm, by omega, by omega⟩

/-- What a copy covers has the value of the image. -/
theorem store_of_covers {c : Copy} {src m : Memory Byte} {v : Byte} (hsrc : ∀ a, src a = v)
    {x y : ℕ} (hcovers : c.Covers x y) :
    m.store ((c.y * rw.toNat + c.x : ℕ) : ℤ) (src.load c.src c.length.toNat)
      ((y * rw.toNat + x : ℕ) : ℤ) = v := by
  obtain ⟨rfl, hle, hlt⟩ := hcovers
  refine Memory.store_inside (by omega) ?_
  rw [Memory.load, List.getElem?_map, List.getElem?_range (by omega), Option.map_some, hsrc]

theorem unpacked_of_not_covers {cs : List Copy} (hcs : ∀ c ∈ cs, c.InBounds info rw rh)
    (src picture : Memory Byte) {x y : ℕ} (hx : x < rw.toNat) (hy : y < rh.toNat)
    (hcovers : ∀ c ∈ cs, ¬c.Covers x y) :
    unpacked rw rh src picture cs ((y * rw.toNat + x : ℕ) : ℤ) = 0 := by
  unfold unpacked
  induction cs using List.reverseRecOn with
  | nil =>
    refine Memory.store_inside (by omega) ?_
    have hle : (y + 1) * rw.toNat ≤ rh.toNat * rw.toNat := Nat.mul_le_mul_right _ hy
    rw [Nat.succ_mul] at hle
    refine List.getElem?_replicate_of_lt ?_
    rw [Nat.mul_comm rw.toNat]
    omega
  | append_singleton cs c ih =>
    rw [List.foldl_append, List.foldl_cons, List.foldl_nil,
      store_of_not_covers (hcs c (by simp)) hx (hcovers c (by simp))]
    exact ih (fun c hc => hcs c (List.mem_append_left _ hc))
      fun c hc => hcovers c (List.mem_append_left _ hc)

/-- An image without a zero is seen wherever it is copied to. -/
theorem unpacked_of_covers {cs : List Copy} (hcs : ∀ c ∈ cs, c.InBounds info rw rh)
    {src : Memory Byte} {v : Byte} (hsrc : ∀ a, src a = v) (picture : Memory Byte) {x y : ℕ}
    (hx : x < rw.toNat) (hcovers : ∃ c ∈ cs, c.Covers x y) :
    unpacked rw rh src picture cs ((y * rw.toNat + x : ℕ) : ℤ) = v := by
  unfold unpacked
  induction cs using List.reverseRecOn with
  | nil =>
    obtain ⟨c, hc, -⟩ := hcovers
    cases hc
  | append_singleton cs last ih =>
    rw [List.foldl_append, List.foldl_cons, List.foldl_nil]
    by_cases hlast : last.Covers x y
    · exact store_of_covers hsrc hlast
    · rw [store_of_not_covers (hcs last (by simp)) hx hlast]
      refine ih (fun c hc => hcs c (List.mem_append_left _ hc)) ?_
      obtain ⟨c, hc, hcov⟩ := hcovers
      rcases List.mem_append.mp hc with hc | hc
      · exact ⟨c, hc, hcov⟩
      · obtain rfl := List.mem_singleton.mp hc
        exact absurd hcov hlast

/-- What is asked of the pixels, of the copies: they cover placed pixels only. -/
theorem clear_iff {cs : List Copy} (hcs : ∀ c ∈ cs, c.InBounds info rw rh) :
    (∀ src picture x y, x < rw.toNat → y < rh.toNat → ¬Placed info rw rh x y →
      unpacked rw rh src picture cs ((y * rw.toNat + x : ℕ) : ℤ) = 0) ↔
    ∀ c ∈ cs, ∀ x y, x < rw.toNat → y < rh.toNat → c.Covers x y → Placed info rw rh x y := by
  constructor
  · intro h c hc x y hx hy hcovers
    by_contra hnot
    have hzero := h (fun _ => 1) (fun _ => 0) x y hx hy hnot
    rw [unpacked_of_covers hcs (fun _ => rfl) _ hx ⟨c, hc, hcovers⟩] at hzero
    exact absurd hzero (by decide)
  · intro h src picture x y hx hy hnot
    exact unpacked_of_not_covers hcs src picture hx hy
      fun c hc hcovers => hnot (h c hc x y hx hy hcovers)

/-! ## Rows -/

theorem copyRow_length {y x srcy : ℕ} (hx : x ≤ rw.toNat) :
    (copyRow info rw y x srcy).length = min info.w.toNat (rw.toNat - x) := by
  dsimp only [copyRow]
  split <;> omega

theorem copyRow_covers {y x srcy px py : ℕ} (hx : x ≤ rw.toNat) :
    (copyRow info rw y x srcy).Covers px py ↔
      y = py ∧ x ≤ px ∧ px < x + info.w.toNat ∧ px < rw.toNat := by
  rw [Copy.Covers, copyRow_length hx]
  dsimp only [copyRow]
  omega

/-- A row of the image is copied in bounds where it is not behind the right edge, and where there
is a row of the picture to copy it to. -/
theorem copyRow_inBounds_iff {y x srcy : ℕ} (hsrcy : srcy < info.h.toNat) :
    (copyRow info rw y x srcy).InBounds info rw rh ↔
      x ≤ rw.toNat ∧ (0 < info.w.toNat → x < rw.toNat → y < rh.toNat) := by
  by_cases hx : x ≤ rw.toNat
  · rw [Copy.InBounds, copyRow_length hx]
    have himage : srcy * info.w.toNat + info.w.toNat ≤ info.w.toNat * info.h.toNat := by
      rw [← Nat.succ_mul, Nat.mul_comm]
      exact Nat.mul_le_mul_left _ hsrcy
    dsimp only [copyRow]
    constructor
    · rintro ⟨-, hpos⟩
      refine ⟨hx, fun hw hlt => (hpos ?_).1⟩
      omega
    · rintro ⟨-, hrow⟩
      refine ⟨by omega, fun hpos => ⟨hrow (by omega) (by omega), by omega, ?_⟩⟩
      push_cast
      have hmin : ((min info.w.toNat (rw.toNat - x) : ℕ) : ℤ) ≤ info.w.toNat := by omega
      have hcast : ((srcy * info.w.toNat + info.w.toNat : ℕ) : ℤ) ≤
          (info.w.toNat * info.h.toNat : ℕ) := by exact_mod_cast himage
      push_cast at hmin hcast
      omega
  · refine iff_of_false (fun h => ?_) fun h => hx h.1
    have hle := h.1
    dsimp only [copyRow] at hle
    split at hle <;> omega

/-! ## Placing -/

/-- When the settings for a single watermark let it fit. -/
def PlaceFits (info : WatermarkInfo) (rw rh : UInt16) : Prop :=
  info.h.toNat = 0 ∨ sx info rw ≤ rw.toNat ∧
    (info.w.toNat = 0 ∨ sx info rw = rw.toNat ∨ sy info rh + info.h.toNat ≤ rh.toNat)

theorem placeCopies_inBounds_iff :
    (∀ c ∈ placeCopies info rw rh, c.InBounds info rw rh) ↔ PlaceFits info rw rh := by
  rw [placeCopies, List.forall_mem_map]
  simp only [List.mem_range]
  constructor
  · intro h
    rcases Nat.eq_zero_or_pos info.h.toNat with hzero | hpos
    · exact Or.inl hzero
    · have hlast := (copyRow_inBounds_iff (by omega)).mp (h (info.h.toNat - 1) (by omega))
      refine Or.inr ⟨hlast.1, ?_⟩
      by_cases hw : info.w.toNat = 0
      · exact Or.inl hw
      by_cases hsx : sx info rw = rw.toNat
      · exact Or.inr (Or.inl hsx)
      have hrow := hlast.2 (by omega) (by omega)
      omega
  · rintro (hzero | ⟨hsx, hfits⟩) y hy
    · omega
    · refine (copyRow_inBounds_iff hy).mpr ⟨hsx, fun hw hlt => ?_⟩
      omega

theorem placeCopies_covers (hrepeat : info.repeat_ = 0) (hfits : PlaceFits info rw rh) :
    ∀ c ∈ placeCopies info rw rh, ∀ x y, x < rw.toNat → y < rh.toNat → c.Covers x y →
      Placed info rw rh x y := by
  intro c hc x y hx hy hcovers
  obtain ⟨row, hrow, rfl⟩ := List.mem_map.mp hc
  have hlt := List.mem_range.mp hrow
  obtain hzero | ⟨hsx, -⟩ := hfits
  · omega
  · obtain ⟨hyy, hlo, hhi, -⟩ := (copyRow_covers hsx).mp hcovers
    rw [Placed, if_neg (fun h => h hrepeat)]
    exact ⟨⟨hlo, hhi⟩, by omega, by omega⟩

/-! ## Repeating -/

/-- The height of a tile, as the 16-bit counter of its rows sees it. -/
def tileHeight (info : WatermarkInfo) : ℕ := if info.h.toNat = 0 then 65536 else info.h.toNat

theorem nextColumn_iterate (info : WatermarkInfo) (j : ℕ) :
    (nextColumn info)^[j] 0 = tilePoint 65536 (info.w.toNat + info.repeat_.toNat) 1 j := by
  induction j with
  | zero => simp [tilePoint]
  | succ j ih =>
    rw [Function.iterate_succ_apply', ih, nextColumn]
    simp only [tilePoint, Nat.div_one, Nat.mod_one, Nat.add_zero, Nat.succ_mul, Nat.mod_add_mod]

theorem tileHeight_pos (info : WatermarkInfo) : 0 < tileHeight info := by
  unfold tileHeight
  split <;> omega

theorem tileHeight_le (info : WatermarkInfo) : tileHeight info ≤ 65536 := by
  have hh := info.h.toNat_lt
  unfold tileHeight
  split <;> omega

/-- The 16-bit counter of the rows is at its end after the last row of a tile. -/
theorem last_row_iff (info : WatermarkInfo) {r : ℕ} (hr : r < tileHeight info) :
    (r + 1) % 65536 = info.h.toNat ↔ r + 1 = tileHeight info := by
  have hh := info.h.toNat_lt
  unfold tileHeight at hr ⊢
  split
  · rename_i hzero
    rw [if_pos hzero] at hr
    omega
  · rename_i hzero
    rw [if_neg hzero] at hr
    omega

theorem nextRow_iterate (info : WatermarkInfo) (j : ℕ) :
    (nextRow info)^[j] (0, 0) =
      (tilePoint 65536 (tileHeight info + info.repeat_.toNat) (tileHeight info) j,
        j % tileHeight info) := by
  have hpos := tileHeight_pos info
  have hle := tileHeight_le info
  induction j with
  | zero => simp [tilePoint]
  | succ j ih =>
    rw [Function.iterate_succ_apply', ih, nextRow]
    have hr : j % tileHeight info < tileHeight info := Nat.mod_lt _ hpos
    have hj : j / tileHeight info * tileHeight info + j % tileHeight info = j :=
      Nat.div_add_mod' j _
    rw [← hj, tilePoint_of_lt hr, hj]
    dsimp only
    split
    · rename_i hlast
      rw [last_row_iff info hr] at hlast
      have hnext : j + 1 = (j / tileHeight info + 1) * tileHeight info + 0 := by
        rw [Nat.succ_mul]
        omega
      have hmod : (j + 1) % tileHeight info = 0 := by
        rw [hnext, Nat.add_zero]
        exact Nat.mul_mod_left _ _
      rw [hmod, hnext, tilePoint_of_lt hpos, Nat.mod_add_mod, Nat.add_assoc (_ % 65536),
        Nat.mod_add_mod, Nat.succ_mul]
      refine Prod.ext (congrArg (· % 65536) ?_) rfl
      omega
    · rename_i hlast
      rw [last_row_iff info hr] at hlast
      have hlt : j % tileHeight info + 1 < tileHeight info := by omega
      have hnext : j + 1 = j / tileHeight info * tileHeight info + (j % tileHeight info + 1) := by
        omega
      rw [Nat.mod_add_mod, Nat.mod_eq_of_lt (by omega : j % tileHeight info + 1 < 65536)]
      conv_rhs => rw [hnext, tilePoint_of_lt hlt, ← hnext]
      have hmod : (j + 1) % tileHeight info = j % tileHeight info + 1 := by
        rw [hnext, Nat.mul_comm, Nat.mul_add_mod, Nat.mod_eq_of_lt hlt]
      rw [hmod]
      rfl

/-- Where the counters of the loops are at their turns. -/
abbrev columnPoint (info : WatermarkInfo) (i : ℕ) : ℕ :=
  tilePoint 65536 (info.w.toNat + info.repeat_.toNat) 1 i

abbrev rowPoint (info : WatermarkInfo) (j : ℕ) : ℕ :=
  tilePoint 65536 (tileHeight info + info.repeat_.toNat) (tileHeight info) j

/-- The turns at which the loops copy something. -/
abbrev ColumnVisited (info : WatermarkInfo) (rw : UInt16) (i : ℕ) : Prop :=
  Visited 65536 (info.w.toNat + info.repeat_.toNat) 1 rw.toNat i

abbrev RowVisited (info : WatermarkInfo) (rh : UInt16) (j : ℕ) : Prop :=
  Visited 65536 (tileHeight info + info.repeat_.toNat) (tileHeight info) rh.toNat j

theorem of_repeatRow {fuel : ℕ} {s : ℕ × ℕ} {part : List Copy}
    (h : repeatRow info rw fuel s = some part) : (∃ i, rw.toNat ≤ columnPoint info i) ∧
      ∀ c, c ∈ part ↔ ∃ i, ColumnVisited info rw i ∧
        c = copyRow info rw s.1 (columnPoint info i) s.2 := by
  obtain ⟨k, ⟨hturns, hend⟩, hparts, hmem⟩ := of_loop_eq_some h
  simp only [nextColumn_iterate, Nat.not_lt] at hturns hend hparts hmem
  refine ⟨⟨k, hend⟩, fun c => ⟨fun hc => ?_, ?_⟩⟩
  · obtain ⟨i, hi, part', hpart', hc'⟩ := hmem c hc
    obtain rfl := Option.some.inj hpart'
    exact ⟨i, fun i' hi' => hturns i' (lt_of_le_of_lt hi' hi), List.mem_singleton.mp hc'⟩
  · rintro ⟨i, hi, rfl⟩
    have hik : i < k := by
      by_contra hle
      exact absurd (hi k (Nat.not_lt.mp hle)) (Nat.not_lt.mpr hend)
    obtain ⟨part', hpart', hsub⟩ := hparts i hik
    obtain rfl := Option.some.inj hpart'
    exact hsub (List.mem_singleton_self _)

/-- What is copied when the loops end. -/
theorem of_repeatCopies {fuel : ℕ} {cs : List Copy} (h : repeatCopies info rw rh fuel = some cs) :
    (∃ j, rh.toNat ≤ rowPoint info j) ∧ (0 < rh.toNat → ∃ i, rw.toNat ≤ columnPoint info i) ∧
      ∀ c, c ∈ cs ↔ ∃ j i, RowVisited info rh j ∧ ColumnVisited info rw i ∧
        c = copyRow info rw (rowPoint info j) (columnPoint info i) (j % tileHeight info) := by
  obtain ⟨k, ⟨hturns, hend⟩, hparts, hmem⟩ := of_loop_eq_some h
  simp only [nextRow_iterate, Nat.not_lt] at hturns hend hparts hmem
  have hvisited : ∀ {j}, RowVisited info rh j → j < k := by
    intro j hj
    by_contra hle
    exact absurd (hj k (Nat.not_lt.mp hle)) (Nat.not_lt.mpr hend)
  refine ⟨⟨k, hend⟩, fun hpos => ?_, fun c => ⟨fun hc => ?_, ?_⟩⟩
  · have hfirst : RowVisited info rh 0 := by
      intro j hj
      obtain rfl := Nat.le_zero.mp hj
      simpa [tilePoint] using hpos
    obtain ⟨part, hpart, -⟩ := hparts 0 (hvisited hfirst)
    exact (of_repeatRow hpart).1
  · obtain ⟨j, hj, part, hpart, hc'⟩ := hmem c hc
    obtain ⟨i, hi, rfl⟩ := ((of_repeatRow hpart).2 c).mp hc'
    exact ⟨j, i, fun j' hj' => hturns j' (lt_of_le_of_lt hj' hj), hi, rfl⟩
  · rintro ⟨j, i, hj, hi, rfl⟩
    obtain ⟨part, hpart, hsub⟩ := hparts j (hvisited hj)
    exact hsub (((of_repeatRow hpart).2 _).mpr ⟨i, hi, rfl⟩)

/-- The loops end when their counters come to the edges. -/
theorem exists_repeatCopies (hrow : ∃ j, rh.toNat ≤ rowPoint info j)
    (hcolumn : 0 < rh.toNat → ∃ i, rw.toNat ≤ columnPoint info i) :
    ∃ fuel cs, repeatCopies info rw rh fuel = some cs := by
  obtain ⟨k, hk⟩ : ∃ k, Turns (fun s : ℕ × ℕ => s.1 < rh.toNat) (nextRow info) (0, 0) k := by
    obtain ⟨j, hj⟩ := hrow
    refine exists_turns ⟨j, ?_⟩
    rw [nextRow_iterate]
    exact Nat.not_lt.mpr hj
  rcases Nat.eq_zero_or_pos rh.toNat with hzero | hpos
  · refine ⟨1, [], ?_⟩
    rw [repeatCopies, loop, if_neg (by rw [hzero]; exact Nat.not_lt_zero _)]
  · obtain ⟨k', hk'⟩ : ∃ k', Turns (· < rw.toNat) (nextColumn info) 0 k' := by
      obtain ⟨i, hi⟩ := hcolumn hpos
      refine exists_turns ⟨i, ?_⟩
      rw [nextColumn_iterate]
      exact Nat.not_lt.mpr hi
    refine ⟨max k k' + 1, ?_⟩
    refine exists_loop_eq_some hk (Nat.lt_succ_of_le (Nat.le_max_left k k')) fun j _ => ?_
    exact exists_loop_eq_some hk' (Nat.lt_succ_of_le (Nat.le_max_right k k')) fun i _ => ⟨_, rfl⟩

/-- When the settings for a repeated watermark let it fit. -/
structure RepeatFits (info : WatermarkInfo) (rw rh : UInt16) : Prop where
  rowsEnd : rh.toNat + (tileHeight info + info.repeat_.toNat).gcd 65536 < 65536 + tileHeight info
  columnsEnd : rh.toNat = 0 ∨ rw.toNat + (info.w.toNat + info.repeat_.toNat).gcd 65536 ≤ 65536
  tiles : rw.toNat = 0 ∨ rh.toNat = 0 ∨ info.w.toNat = 0 ∨ info.h.toNat ≠ 0 ∧
    (Aligned 65536 (info.w.toNat + info.repeat_.toNat) 1 rw.toNat ∨ rw.toNat ≤ info.w.toNat) ∧
    (Aligned 65536 (tileHeight info + info.repeat_.toNat) (tileHeight info) rh.toNat ∨
      rh.toNat ≤ info.h.toNat)

theorem columnsEnd_iff (info : WatermarkInfo) (rw : UInt16) :
    (∃ i, rw.toNat ≤ columnPoint info i) ↔
      rw.toNat + (info.w.toNat + info.repeat_.toNat).gcd 65536 ≤ 65536 := by
  rw [exists_tilePoint_ge_iff (by decide) Nat.one_pos rw.toNat_lt]
  exact Nat.lt_succ_iff

theorem rowsEnd_iff (info : WatermarkInfo) (rh : UInt16) :
    (∃ j, rh.toNat ≤ rowPoint info j) ↔
      rh.toNat + (tileHeight info + info.repeat_.toNat).gcd 65536 < 65536 + tileHeight info :=
  exists_tilePoint_ge_iff (by decide) (tileHeight_pos info) rh.toNat_lt

section Tiles

variable (hrepeat : 0 < info.repeat_.toNat)
include hrepeat

/-- A row of tiles that wraps around covers a column between the tiles. -/
theorem exists_column_between (hna : ¬Aligned 65536 (info.w.toNat + info.repeat_.toNat) 1 rw.toNat)
    (hw : 0 < info.w.toNat) (hlt : info.w.toNat < rw.toNat)
    (hend : ∃ i, rw.toNat ≤ columnPoint info i) :
    ∃ i x, ColumnVisited info rw i ∧ columnPoint info i ≤ x ∧
      x < columnPoint info i + info.w.toNat ∧ x < rw.toNat ∧
      info.w.toNat ≤ x % (info.w.toNat + info.repeat_.toNat) := by
  obtain ⟨q, hvisited, hpos, hfirst, -⟩ := exists_wrapped hna (by omega) Nat.one_pos rw.toNat_lt
    (by omega) hend
  have hcol := hvisited _ (Nat.le_refl _)
  simp only [ColumnVisited, columnPoint]
  refine ⟨q * 1, max info.w.toNat _, hvisited, Nat.le_max_right _ _, ?_, ?_, ?_⟩
  · omega
  · omega
  · rw [Nat.mod_eq_of_lt (by omega)]
    exact Nat.le_max_left _ _

/-- Rows of tiles that wrap around cover a row between the tiles. -/
theorem exists_row_between
    (hna : ¬Aligned 65536 (tileHeight info + info.repeat_.toNat) (tileHeight info) rh.toNat)
    (hlt : info.h.toNat < rh.toNat) (hh : info.h.toNat ≠ 0)
    (hend : ∃ j, rh.toNat ≤ rowPoint info j) :
    ∃ j, RowVisited info rh j ∧
      info.h.toNat ≤ rowPoint info j % (info.h.toNat + info.repeat_.toNat) := by
  have hheight : tileHeight info = info.h.toNat := if_neg hh
  have hbound := rh.toNat_lt
  rw [hheight] at hna
  simp only [RowVisited, rowPoint, hheight] at hend ⊢
  obtain ⟨q, hvisited, hpos, hfirst, -⟩ := exists_wrapped hna (by omega) (by omega) hbound
    (by omega) hend
  generalize hstart : tilePoint 65536 (info.h.toNat + info.repeat_.toNat) info.h.toNat
    (q * info.h.toNat) = y at hpos hfirst
  by_cases hy : info.h.toNat ≤ y
  · exact ⟨q * info.h.toNat, hvisited, by rwa [hstart, Nat.mod_eq_of_lt hfirst]⟩
  · -- the row behind the first tile is a row of the tile that has wrapped around
    have hpoint : ∀ r, y + r < 65536 → r < info.h.toNat →
        tilePoint 65536 (info.h.toNat + info.repeat_.toNat) info.h.toNat
          (q * info.h.toNat + r) = y + r := by
      intro r hr hrh
      have hfirstTile : tilePoint 65536 (info.h.toNat + info.repeat_.toNat) info.h.toNat r = r := by
        have hof := tilePoint_of_lt (M := 65536) (p := info.h.toNat + info.repeat_.toNat)
          (q := 0) hrh
        rw [Nat.zero_mul, Nat.zero_mul, Nat.zero_add] at hof
        rw [hof, Nat.mod_eq_of_lt (by omega)]
      rw [tilePoint_add (by omega), hstart, hfirstTile, Nat.mod_eq_of_lt hr]
    refine ⟨q * info.h.toNat + (info.h.toNat - y), ?_, ?_⟩
    · intro j hj
      by_cases hle : j ≤ q * info.h.toNat
      · exact hvisited j hle
      · obtain ⟨r, rfl⟩ := Nat.exists_eq_add_of_le (Nat.le_of_not_le hle)
        rw [hpoint r (by omega) (by omega)]
        omega
    · rw [hpoint _ (by omega) (by omega), Nat.mod_eq_of_lt (by omega)]
      omega

/-- The copies of a repeated watermark cover placed pixels only. -/
theorem covers_placed (hfits : RepeatFits info rw rh) {j i x y : ℕ} (hj : RowVisited info rh j)
    (hi : ColumnVisited info rw i)
    (hcovers : (copyRow info rw (rowPoint info j) (columnPoint info i)
      (j % tileHeight info)).Covers x y) : Placed info rw rh x y := by
  have hrow : rowPoint info j < rh.toNat := hj j (Nat.le_refl j)
  have hcolumn : columnPoint info i < rw.toNat := hi i (Nat.le_refl i)
  obtain ⟨rfl, hlo, hhi, hx⟩ := (copyRow_covers hcolumn.le).mp hcovers
  have hne : info.repeat_ ≠ 0 := by
    rintro hzero
    rw [hzero] at hrepeat
    exact absurd hrepeat (by decide)
  obtain h | h | h | ⟨hh, hcolumns, hrows⟩ := hfits.tiles
  · omega
  · omega
  · omega
  · have hheight : tileHeight info = info.h.toNat := if_neg hh
    rw [Placed, if_pos hne]
    constructor
    · rcases hcolumns with haligned | hle
      · have hpoint : columnPoint info i = i / 1 * (info.w.toNat + info.repeat_.toNat) + i % 1 :=
          haligned.tilePoint_eq Nat.one_pos rw.toNat_lt hi
        rw [Nat.mod_one, Nat.add_zero] at hpoint
        obtain ⟨d, rfl⟩ := Nat.exists_eq_add_of_le hlo
        rw [hpoint, Nat.mul_add_mod_self_right, Nat.mod_eq_of_lt (by omega)]
        omega
      · rw [Nat.mod_eq_of_lt (by omega)]
        omega
    · rcases hrows with haligned | hle
      · have hpoint : rowPoint info j = j / tileHeight info * (tileHeight info +
            info.repeat_.toNat) + j % tileHeight info :=
          haligned.tilePoint_eq (tileHeight_pos info) rh.toNat_lt hj
        have hr : j % tileHeight info < tileHeight info := Nat.mod_lt _ (tileHeight_pos info)
        rw [hpoint, ← hheight, Nat.mul_add_mod_self_right, Nat.mod_eq_of_lt (by omega)]
        exact hr
      · rw [Nat.mod_eq_of_lt (by omega)]
        omega

end Tiles

/-- The copies of a repeated watermark are in bounds as long as there is a row to copy. -/
theorem repeat_inBounds (hfits : RepeatFits info rw rh) {j i : ℕ} (hj : RowVisited info rh j)
    (hi : ColumnVisited info rw i) :
    (copyRow info rw (rowPoint info j) (columnPoint info i) (j % tileHeight info)).InBounds
      info rw rh := by
  have hrow : rowPoint info j < rh.toNat := hj j (Nat.le_refl j)
  have hcolumn : columnPoint info i < rw.toNat := hi i (Nat.le_refl i)
  rcases Nat.eq_zero_or_pos info.w.toNat with hzero | hpos
  · rw [Copy.InBounds, copyRow_length hcolumn.le, hzero, Nat.zero_min]
    exact ⟨le_rfl, fun h => absurd h (lt_irrefl _)⟩
  · have hh : info.h.toNat ≠ 0 := by
      obtain h | h | h | ⟨hh, -⟩ := hfits.tiles
      · omega
      · omega
      · omega
      · exact hh
    have hheight : tileHeight info = info.h.toNat := if_neg hh
    have hr : j % tileHeight info < tileHeight info := Nat.mod_lt _ (tileHeight_pos info)
    rw [hheight] at hr ⊢
    exact (copyRow_inBounds_iff hr).mpr ⟨hcolumn.le, fun _ _ => hrow⟩

theorem columnVisited_zero (hpos : 0 < rw.toNat) : ColumnVisited info rw 0 := by
  intro i hi
  obtain rfl := Nat.le_zero.mp hi
  simpa [tilePoint] using hpos

theorem rowVisited_zero (hpos : 0 < rh.toNat) : RowVisited info rh 0 := by
  intro j hj
  obtain rfl := Nat.le_zero.mp hj
  simpa [tilePoint] using hpos

/-- What is in bounds and covers placed pixels only fits. -/
theorem repeatFits_of_copies (hrepeat : 0 < info.repeat_.toNat) (hne : info.repeat_ ≠ 0)
    {fuel : ℕ} {cs : List Copy} (h : repeatCopies info rw rh fuel = some cs)
    (hin : ∀ c ∈ cs, c.InBounds info rw rh)
    (hplaced : ∀ c ∈ cs, ∀ x y, x < rw.toNat → y < rh.toNat → c.Covers x y →
      Placed info rw rh x y) : RepeatFits info rw rh := by
  obtain ⟨hrowsEnd, hcolumnsEnd, hmem⟩ := of_repeatCopies h
  refine ⟨(rowsEnd_iff info rh).mp hrowsEnd, ?_, ?_⟩
  · rcases Nat.eq_zero_or_pos rh.toNat with hzero | hpos
    · exact Or.inl hzero
    · exact Or.inr ((columnsEnd_iff info rw).mp (hcolumnsEnd hpos))
  rcases Nat.eq_zero_or_pos rw.toNat with hzero | hrw
  · exact Or.inl hzero
  rcases Nat.eq_zero_or_pos rh.toNat with hzero | hrh
  · exact Or.inr (Or.inl hzero)
  rcases Nat.eq_zero_or_pos info.w.toNat with hzero | hw
  · exact Or.inr (Or.inr (Or.inl hzero))
  refine Or.inr (Or.inr (Or.inr ⟨?_, ?_, ?_⟩))
  · -- the first row of the image is read
    intro hh
    have hfirst := hin _ ((hmem _).mpr
      ⟨0, 0, rowVisited_zero hrh, columnVisited_zero hrw, rfl⟩)
    have hzero : columnPoint info 0 = 0 := by simp [tilePoint]
    rw [Copy.InBounds, hzero, copyRow_length (Nat.zero_le _)] at hfirst
    have hread := (hfirst.2 (by omega)).2.2
    simp only [hh, Nat.cast_zero, mul_zero] at hread
    omega
  · by_contra hnot
    rw [not_or, Nat.not_le] at hnot
    obtain ⟨i, x, hi, hlo, hhi, hx, hbetween⟩ :=
      exists_column_between hrepeat hnot.1 hw hnot.2 (hcolumnsEnd hrh)
    have hcolumn := hi i (Nat.le_refl i)
    have hplace := hplaced _ ((hmem _).mpr ⟨0, i, rowVisited_zero hrh, hi, rfl⟩) x _ hx
      (rowVisited_zero hrh 0 (Nat.le_refl 0)) ((copyRow_covers hcolumn.le).mpr ⟨rfl, hlo, hhi, hx⟩)
    rw [Placed, if_pos hne] at hplace
    exact absurd hplace.1 (Nat.not_lt.mpr hbetween)
  · by_contra hnot
    rw [not_or, Nat.not_le] at hnot
    by_cases hh : info.h.toNat = 0
    · -- then there is only one tile
      refine hnot.1 fun hle => ?_
      rw [tileHeight, if_pos hh] at hle
      have hbound := rh.toNat_lt
      omega
    · obtain ⟨j, hj, hbetween⟩ := exists_row_between hrepeat hnot.1 hnot.2 hh hrowsEnd
      have hzero : columnPoint info 0 = 0 := by simp [tilePoint]
      have hplace := hplaced _ ((hmem _).mpr ⟨j, 0, hj, columnVisited_zero hrw, rfl⟩) 0 _ hrw
        (hj j (Nat.le_refl j))
        ((copyRow_covers (by omega)).mpr ⟨rfl, by omega, by omega, hrw⟩)
      rw [Placed, if_pos hne] at hplace
      exact absurd hplace.2 (Nat.not_lt.mpr hbetween)

/-! ## When the watermark fits -/

/-- The picture fits the memory, and the watermark the picture. -/
def Fits (info : WatermarkInfo) (rw rh : UInt16) : Prop :=
  rw.toNat * rh.toNat ≤ MAXW * MAXH ∧
    if info.repeat_ ≠ 0 then RepeatFits info rw rh else PlaceFits info rw rh

/-- **Placing the watermark.** The loops end, read and write in bounds only, and leave the pixels
that are not in the watermark zero, exactly when the watermark fits. -/
theorem wellPlaced_iff (info : WatermarkInfo) (rw rh : UInt16) :
    (∃ fuel cs, copies info rw rh fuel = some cs ∧ WellPlaced info rw rh cs) ↔
      Fits info rw rh := by
  have hpacked : rw.toNat * rh.toNat ≤ MAXW * MAXH → ∀ picture pix0 pix1,
      (packWatermark rw rh picture pix0 pix1).length ≤ MAXW * (MAXH / 2) := by
    intro hle picture pix0 pix1
    rw [length_packWatermark]
    have hmax : MAXW * MAXH = 2 * (MAXW * (MAXH / 2)) := by decide
    omega
  by_cases hrepeat : info.repeat_ = 0
  · simp only [copies, Fits, hrepeat, ne_eq, not_true_eq_false, if_false, Option.some.injEq,
      exists_eq_left', exists_const]
    constructor
    · intro h
      exact ⟨h.allocated, placeCopies_inBounds_iff.mp h.inBounds⟩
    · rintro ⟨hallocated, hfits⟩
      have hin := placeCopies_inBounds_iff.mpr hfits
      exact ⟨hin, hallocated, hpacked hallocated,
        (clear_iff hin).mpr (placeCopies_covers hrepeat hfits)⟩
  · have hpos : 0 < info.repeat_.toNat := by
      refine Nat.pos_of_ne_zero fun hzero => hrepeat ?_
      exact UInt16.toNat_inj.mp hzero
    rw [Fits, if_pos hrepeat]
    simp only [copies, if_pos hrepeat]
    constructor
    · rintro ⟨fuel, cs, hcs, h⟩
      exact ⟨h.allocated, repeatFits_of_copies hpos hrepeat hcs h.inBounds
        ((clear_iff h.inBounds).mp h.clear)⟩
    · rintro ⟨hallocated, hfits⟩
      obtain ⟨fuel, cs, hcs⟩ := exists_repeatCopies ((rowsEnd_iff info rh).mpr hfits.rowsEnd)
        fun hrh => (columnsEnd_iff info rw).mpr (hfits.columnsEnd.resolve_left (by omega))
      obtain ⟨-, -, hmem⟩ := of_repeatCopies hcs
      have hin : ∀ c ∈ cs, c.InBounds info rw rh := by
        intro c hc
        obtain ⟨j, i, hj, hi, rfl⟩ := (hmem c).mp hc
        exact repeat_inBounds hfits hj hi
      refine ⟨fuel, cs, hcs, hin, hallocated, hpacked hallocated, (clear_iff hin).mpr ?_⟩
      intro c hc x y _ _ hcovers
      obtain ⟨j, i, hj, hi, rfl⟩ := (hmem c).mp hc
      exact covers_placed hpos hfits hj hi hcovers

instance (info : WatermarkInfo) (rw rh : UInt16) : Decidable (PlaceFits info rw rh) :=
  inferInstanceAs (Decidable (_ ∨ _))

/-- An image of 800 by 600 pixels in the middle of a screen of 640 by 480. -/
theorem wellPlaced_tall :
    ¬∃ fuel cs, copies ⟨800, 600, 0, 0, 0⟩ 640 480 fuel = some cs ∧
      WellPlaced ⟨800, 600, 0, 0, 0⟩ 640 480 cs := by
  rintro ⟨fuel, cs, hcs, h⟩
  obtain rfl : placeCopies ⟨800, 600, 0, 0, 0⟩ 640 480 = cs := Option.some.inj hcs
  exact absurd (placeCopies_inBounds_iff.mp h.inBounds) (by decide)

/-- An image that is put to the right of the right edge: the length of a row is negative. -/
example : (placeCopies ⟨10, 1, 700, 0, 0⟩ 640 480).map Copy.length = [-60] := by decide

end KasmVNC.Rfb.Watermark
