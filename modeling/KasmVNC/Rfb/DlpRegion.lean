import KasmVNC.Rfb.Permissions
import KasmVNC.Rfb.PixelFormat

/-!
# The visible region

`DLP_Region` names the part of the screen that clients may see. `translateDLPRegion` puts it
into pixels of the framebuffer, `blackOut` makes a copy of the framebuffer in which the rest
is black, and `pointerEvent` does not pass on clicks outside.

`blackOut` takes four bytes for a pixel, whatever the depth: with fewer it writes behind the
end of its copy. The sides of the framebuffer fit sixteen bits, as in the protocol, its rows
have no padding, and products of an `int` do not overflow.
-/

namespace KasmVNC.Rfb

open KasmVNC.Lib

/-! ## The code -/

/-- `DLPRegion` as the constructor of the server leaves it. -/
structure DLPRegion where
  percents : Bool
  x1 : ℤ
  y1 : ℤ
  x2 : ℤ
  y2 : ℤ
  pcx1 : BitVec 16
  pcy1 : BitVec 16
  pcx2 : BitVec 16
  pcy2 : BitVec 16
deriving DecidableEq

/-- The translated region. -/
structure DLPEdges where
  x1 : BitVec 16
  y1 : BitVec 16
  x2 : BitVec 16
  y2 : BitVec 16
deriving DecidableEq

namespace DLPRegion

/-- `x1` or `y1` -/
def firstEdge (percents : Bool) (pc : BitVec 16) (v : ℤ) (size : ℕ) : BitVec 16 :=
  if percents then if pc ≠ 0 then BitVec.ofNat 16 (pc.toNat * size / 100) else 0
  else BitVec.ofNat 16 v.natAbs

/-- `x2` or `y2`, before it is compared with the framebuffer. -/
def lastEdge (percents : Bool) (pc : BitVec 16) (v : ℤ) (size : ℕ) : BitVec 16 :=
  if percents then
    if pc ≠ 0 then BitVec.ofInt 16 (((100 - (pc.toNat : ℤ)) * size).tdiv 100)
    else BitVec.ofNat 16 size
  else if v < 0 then BitVec.ofNat 16 size + BitVec.ofInt 16 v
  else if v > 0 then BitVec.ofInt 16 v
  else BitVec.ofNat 16 size

/-- An edge beyond the framebuffer is set to its last pixel. -/
def clampEdge (edge : BitVec 16) (size : ℕ) : BitVec 16 :=
  if edge.toNat > size then BitVec.ofInt 16 (size - 1) else edge

def translateDLPRegion (r : DLPRegion) (width height : ℕ) : DLPEdges where
  x1 := firstEdge r.percents r.pcx1 r.x1 width
  y1 := firstEdge r.percents r.pcy1 r.y1 height
  x2 := clampEdge (lastEdge r.percents r.pcx2 r.x2 width) width
  y2 := clampEdge (lastEdge r.percents r.pcy2 r.y2 height) height

end DLPRegion

namespace DLPEdges

variable {α : Type*}

/-- The rectangle that `pointerEvent` compares positions with. -/
def rect (e : DLPEdges) : Rect := ⟨(e.x1.toNat, e.y1.toNat), (e.x2.toNat, e.y2.toNat)⟩

/-- `memset(data, 0, n)` -/
structure Memset where
  data : ℕ
  n : ℕ

def Memset.write (m : Memset) (buf : ℕ → Byte) : ℕ → Byte := fun i =>
  if m.data ≤ i ∧ i < m.data + m.n then 0 else buf i

/-- What `blackOut` does in row `y`. A negative `int` is a large `size_t`. -/
def rowMemsets (e : DLPEdges) (width y : ℕ) : List Memset :=
  let stride := width * 4
  let data := y * stride
  if y < e.y1.toNat ∨ y > e.y2.toNat then [⟨data, stride⟩]
  else
    (if e.x1 ≠ 0 then [⟨data, e.x1.toNat * 4⟩] else []) ++
      if e.x2 ≠ 0 then
        [⟨data + e.x2.toNat * 4, (BitVec.ofInt 64 (((width : ℤ) - e.x2.toNat) * 4)).toNat⟩]
      else []

/-- The memory from `blackedpb` on: bytes of the framebuffer `src` over what was there, and
zeros written over them. -/
def blackOut (e : DLPEdges) (width height : ℕ) (src mem : ℕ → Byte) : ℕ → Byte :=
  ((List.range height).flatMap (e.rowMemsets width)).foldl (fun buf m => m.write buf)
    fun i => if i < width * 4 * height then src i else mem i

/-! ## The same with pixels of four bytes -/

/-- What is written to row `y`: pixels from `x` on, `w` of them. -/
def rowWrites (e : DLPEdges) (black : α) (width y : ℕ) : List (Subrect α) :=
  if y < e.y1.toNat ∨ y > e.y2.toNat then [⟨0, y, width, 1, black⟩]
  else
    (if e.x1 ≠ 0 then [⟨0, y, e.x1.toNat, 1, black⟩] else []) ++
      if e.x2 ≠ 0 then [⟨e.x2.toNat, y, width - e.x2.toNat, 1, black⟩] else []

def writes (e : DLPEdges) (black : α) (width height : ℕ) : List (Subrect α) :=
  (List.range height).flatMap (e.rowWrites black width)

/-- The pixels from `blackedpb` on. -/
def blackOutPixels (e : DLPEdges) (black : α) (width height : ℕ) (src mem : ℕ → α) : ℕ → α :=
  (e.writes black width height).foldl (fun buf s => s.write width buf)
    fun i => if i < width * height then src i else mem i

/-- The pixel lies in the region. -/
def Shown (e : DLPEdges) (x y : ℕ) : Prop :=
  (e.x1.toNat ≤ x ∧ x < e.x2.toNat) ∧ e.y1.toNat ≤ y ∧ y < e.y2.toNat

instance (e : DLPEdges) (x y : ℕ) : Decidable (e.Shown x y) :=
  inferInstanceAs (Decidable (_ ∧ _))

/-! ## What is to be -/

/-- The region lies in the framebuffer. -/
structure InBounds (e : DLPEdges) (width height : ℕ) : Prop where
  x_le : e.x1.toNat ≤ e.x2.toNat
  x2_le : e.x2.toNat ≤ width
  y_le : e.y1.toNat ≤ e.y2.toNat
  y2_le : e.y2.toNat ≤ height

/-- The region is as it was and the rest is black. -/
def Blackened (e : DLPEdges) (black : α) (width height : ℕ) (src dst : Block α) : Prop :=
  ∀ x < width, ∀ y < height, dst x y = if e.Shown x y then src x y else black

/-- With so many bytes for a pixel, the copy fits the buffer, and each other write its row. -/
structure WritesInRows (e : DLPEdges) (bytes width height : ℕ) : Prop where
  copy : width * 4 * height ≤ width * bytes * height
  rows : ∀ y < height, ∀ m ∈ e.rowMemsets width y,
    y * (width * bytes) ≤ m.data ∧ m.data + m.n ≤ (y + 1) * (width * bytes)

end DLPEdges

/-! ## Bounds -/

/-- Where the region starts on one side, as it is configured. -/
def configuredStart (percents : Bool) (pc : ℕ) (v : ℤ) (size : ℕ) : ℤ :=
  if percents then pc * size / 100 else |v|

/-- Where it ends. -/
def configuredEnd (percents : Bool) (pc : ℕ) (v : ℤ) (size : ℕ) : ℤ :=
  if percents then ((100 - (pc : ℤ)) * size).tdiv 100
  else if v > 0 then v
  else size + v

/-- The start as an unsigned short. -/
def regionStart (percents : Bool) (pc : ℕ) (v : ℤ) (size : ℕ) : ℤ :=
  configuredStart percents pc v size % 65536

/-- The end as an unsigned short, or the last pixel if it is not in the framebuffer. -/
def regionEnd (percents : Bool) (pc : ℕ) (v : ℤ) (size : ℕ) : ℤ :=
  if configuredEnd percents pc v size % 65536 > size then ((size : ℤ) - 1) % 65536
  else configuredEnd percents pc v size % 65536

namespace DLPRegion

variable {percents : Bool} {pc : BitVec 16} {v : ℤ} {size : ℕ}

theorem toNat_firstEdge :
    ((firstEdge percents pc v size).toNat : ℤ) = regionStart percents pc.toNat v size := by
  unfold firstEdge regionStart configuredStart
  cases percents with
  | true =>
    by_cases hpc : pc = 0
    · simp [hpc]
    · rw [if_pos rfl, if_pos hpc, if_pos rfl, BitVec.toNat_ofNat]
      norm_cast
  | false =>
    rw [if_neg (by decide), if_neg (by decide), BitVec.toNat_ofNat, Int.abs_eq_natAbs]
    norm_cast

theorem toNat_lastEdge :
    ((lastEdge percents pc v size).toNat : ℤ) =
      configuredEnd percents pc.toNat v size % 65536 := by
  unfold lastEdge configuredEnd
  cases percents with
  | true =>
    rw [if_pos rfl, if_pos rfl]
    by_cases hpc : pc = 0
    · simp [hpc, BitVec.toNat_ofNat]
    · rw [if_pos hpc, BitVec.toNat_ofInt]
      omega
  | false =>
    simp only [Bool.false_eq_true, if_false]
    rcases Int.lt_trichotomy v 0 with hv | hv | hv
    · rw [if_pos hv, if_neg (by omega), BitVec.toNat_add, BitVec.toNat_ofNat,
        BitVec.toNat_ofInt]
      omega
    · rw [if_neg (by omega), if_neg (by omega), if_neg (by omega), BitVec.toNat_ofNat]
      omega
    · rw [if_neg (by omega), if_pos hv, if_pos hv, BitVec.toNat_ofInt]
      omega

theorem toNat_clampEdge :
    ((clampEdge (lastEdge percents pc v size) size).toNat : ℤ) =
      regionEnd percents pc.toNat v size := by
  have hlast : ((lastEdge percents pc v size).toNat : ℤ) = _ := toNat_lastEdge
  unfold clampEdge regionEnd
  rw [← hlast]
  by_cases hedge : (lastEdge percents pc v size).toNat > size
  · rw [if_pos hedge, if_pos (by omega), BitVec.toNat_ofInt]
    omega
  · rw [if_neg hedge, if_neg (by omega)]

theorem regionEnd_le (hsize : size < 65536)
    (h : size = 0 → regionEnd percents pc.toNat v size = 0) :
    regionEnd percents pc.toNat v size ≤ size := by
  by_cases hpos : size = 0
  · rw [h hpos]
    exact Int.natCast_nonneg size
  · unfold regionEnd
    split <;> omega

variable (r : DLPRegion) (width height : ℕ)

/-- The sides of the region. -/
def left : ℤ := regionStart r.percents r.pcx1.toNat r.x1 width

def top : ℤ := regionStart r.percents r.pcy1.toNat r.y1 height

def right : ℤ := regionEnd r.percents r.pcx2.toNat r.x2 width

def bottom : ℤ := regionEnd r.percents r.pcy2.toNat r.y2 height

/-- No side is behind the opposite one, and both are 0 where the framebuffer is. -/
structure InOrder : Prop where
  x_le : r.left width ≤ r.right width
  x_zero : width = 0 → r.right width = 0
  y_le : r.top height ≤ r.bottom height
  y_zero : height = 0 → r.bottom height = 0

/-- Pixels that stay as they are: those of the row below the region, and those of its rows
when its right side is 0. -/
def Forgotten (x y : ℕ) : Prop :=
  ((y : ℤ) = r.bottom height ∧ r.left width ≤ x ∧ (x : ℤ) < r.right width) ∨
    r.right width = 0 ∧ r.top height ≤ y ∧ (y : ℤ) ≤ r.bottom height

instance (x y : ℕ) : Decidable (r.Forgotten width height x y) :=
  inferInstanceAs (Decidable (_ ∨ _))

/-- A position in the region. -/
def Holds (p : Point) : Prop :=
  (r.left width ≤ p.1 ∧ p.1 < r.right width) ∧ r.top height ≤ p.2 ∧ p.2 < r.bottom height

end DLPRegion

section Sides

variable {r : DLPRegion} {width height : ℕ}

/-- The code computes these sides. -/
theorem sides (r : DLPRegion) (width height : ℕ) :
    (((r.translateDLPRegion width height).x1.toNat : ℤ) = r.left width ∧
      ((r.translateDLPRegion width height).x2.toNat : ℤ) = r.right width) ∧
    ((r.translateDLPRegion width height).y1.toNat : ℤ) = r.top height ∧
      ((r.translateDLPRegion width height).y2.toNat : ℤ) = r.bottom height :=
  ⟨⟨DLPRegion.toNat_firstEdge, DLPRegion.toNat_clampEdge⟩,
    DLPRegion.toNat_firstEdge, DLPRegion.toNat_clampEdge⟩

theorem inBounds_iff (hw : width < 65536) (hh : height < 65536) :
    (r.translateDLPRegion width height).InBounds width height ↔ r.InOrder width height := by
  obtain ⟨⟨hx1, hx2⟩, hy1, hy2⟩ := sides r width height
  constructor
  · rintro ⟨hx, hx2le, hy, hy2le⟩
    exact ⟨by omega, by omega, by omega, by omega⟩
  · rintro ⟨hx, hx0, hy, hy0⟩
    have hright : r.right width ≤ width := DLPRegion.regionEnd_le hw hx0
    have hbottom : r.bottom height ≤ height := DLPRegion.regionEnd_le hh hy0
    exact ⟨by omega, by omega, by omega, by omega⟩

theorem mem_rect {p : Point} :
    p ∈ Region.ofRect (r.translateDLPRegion width height).rect ↔ r.Holds width height p := by
  obtain ⟨⟨hx1, hx2⟩, hy1, hy2⟩ := sides r width height
  rw [Region.mem_ofRect]
  unfold DLPEdges.rect DLPRegion.Holds
  rw [← hx1, ← hx2, ← hy1, ← hy2]

theorem forgotten_iff {x y : ℕ} : r.Forgotten width height x y ↔
    (y = (r.translateDLPRegion width height).y2.toNat ∧
      (r.translateDLPRegion width height).x1.toNat ≤ x ∧
        x < (r.translateDLPRegion width height).x2.toNat) ∨
    ((r.translateDLPRegion width height).x2.toNat = 0 ∧
      (r.translateDLPRegion width height).y1.toNat ≤ y ∧
        y ≤ (r.translateDLPRegion width height).y2.toNat) := by
  obtain ⟨⟨hx1, hx2⟩, hy1, hy2⟩ := sides r width height
  unfold DLPRegion.Forgotten
  omega

end Sides

/-! ## The black pixels -/

namespace DLPEdges

variable {α : Type*} {e : DLPEdges} {black : α} {width height : ℕ}

theorem mem_writes {s : Subrect α} :
    s ∈ e.writes black width height ↔ ∃ y < height, s ∈ e.rowWrites black width y := by
  simp [writes]

/-- What is written to one row. -/
theorem mem_rowWrites {y : ℕ} {s : Subrect α} : s ∈ e.rowWrites black width y ↔
    ((y < e.y1.toNat ∨ y > e.y2.toNat) ∧ s = ⟨0, y, width, 1, black⟩) ∨
    ¬(y < e.y1.toNat ∨ y > e.y2.toNat) ∧
      ((e.x1 ≠ 0 ∧ s = ⟨0, y, e.x1.toNat, 1, black⟩) ∨
        e.x2 ≠ 0 ∧ s = ⟨e.x2.toNat, y, width - e.x2.toNat, 1, black⟩) := by
  unfold rowWrites
  by_cases hrow : y < e.y1.toNat ∨ y > e.y2.toNat
  · rw [if_pos hrow, List.mem_singleton]
    exact ⟨fun hs => Or.inl ⟨hrow, hs⟩, fun h => (h.resolve_right fun hr => hr.left hrow).right⟩
  · rw [if_neg hrow, List.mem_append]
    simp only [hrow, false_and, false_or, not_false_iff, true_and]
    refine or_congr ?_ ?_ <;> split <;> simp_all

/-- A pixel in a part of a row. -/
theorem contains_row {x y a w y' : ℕ} :
    (⟨a, y', w, 1, black⟩ : Subrect α).Contains x y ↔ (a ≤ x ∧ x < a + w) ∧ y = y' := by
  unfold Subrect.Contains
  refine and_congr Iff.rfl ?_
  show y' ≤ y ∧ y < y' + 1 ↔ y = y'
  omega

theorem toNat_ne_zero {v : BitVec 16} : v.toNat ≠ 0 ↔ v ≠ 0 :=
  not_congr ⟨fun h => BitVec.eq_of_toNat_eq h, fun h => h ▸ rfl⟩

theorem writes_fit (hin : e.InBounds width height) {s : Subrect α}
    (hs : s ∈ e.writes black width height) : s.x + s.w ≤ width := by
  obtain ⟨y, -, hrow⟩ := mem_writes.mp hs
  have hx := hin.x_le
  have hx2 := hin.x2_le
  rcases mem_rowWrites.mp hrow with ⟨-, rfl⟩ | ⟨-, ⟨-, rfl⟩ | ⟨-, rfl⟩⟩
  · exact (Nat.zero_add width).le
  · exact (Nat.zero_add _).trans_le (hx.trans hx2)
  · exact (Nat.add_sub_cancel' hx2).le

theorem writes_black {s : Subrect α} (hs : s ∈ e.writes black width height) :
    s.colour = black := by
  obtain ⟨y, -, hrow⟩ := mem_writes.mp hs
  rcases mem_rowWrites.mp hrow with ⟨-, rfl⟩ | ⟨-, ⟨-, rfl⟩ | ⟨-, rfl⟩⟩ <;> rfl

/-- The pixels that are written. -/
theorem written_iff (hin : e.InBounds width height) {x y : ℕ} (hx : x < width)
    (hy : y < height) : (∃ s ∈ e.writes black width height, s.Contains x y) ↔
      (y < e.y1.toNat ∨ y > e.y2.toNat) ∨ x < e.x1.toNat ∨
        e.x2.toNat ≠ 0 ∧ e.x2.toNat ≤ x := by
  have hx2 := hin.x2_le
  constructor
  · rintro ⟨s, hs, hcont⟩
    obtain ⟨y', -, hrow⟩ := mem_writes.mp hs
    rcases mem_rowWrites.mp hrow with ⟨hout, rfl⟩ | ⟨-, ⟨-, rfl⟩ | ⟨hne, rfl⟩⟩
    · obtain ⟨-, rfl⟩ := contains_row.mp hcont
      exact Or.inl hout
    · obtain ⟨⟨-, hlt⟩, -⟩ := contains_row.mp hcont
      exact Or.inr (Or.inl (by omega))
    · obtain ⟨⟨hle, -⟩, -⟩ := contains_row.mp hcont
      exact Or.inr (Or.inr ⟨toNat_ne_zero.mpr hne, hle⟩)
  · intro hcases
    by_cases hout : y < e.y1.toNat ∨ y > e.y2.toNat
    · exact ⟨_, mem_writes.mpr ⟨y, hy, mem_rowWrites.mpr (Or.inl ⟨hout, rfl⟩)⟩,
        contains_row.mpr ⟨by omega, rfl⟩⟩
    · rcases hcases.resolve_left hout with hleft | ⟨hne, hright⟩
      · have hne : e.x1 ≠ 0 := toNat_ne_zero.mp (by omega)
        exact ⟨_, mem_writes.mpr ⟨y, hy, mem_rowWrites.mpr
          (Or.inr ⟨hout, Or.inl ⟨hne, rfl⟩⟩)⟩, contains_row.mpr ⟨by omega, rfl⟩⟩
      · exact ⟨_, mem_writes.mpr ⟨y, hy, mem_rowWrites.mpr
          (Or.inr ⟨hout, Or.inr ⟨toNat_ne_zero.mp hne, rfl⟩⟩)⟩,
          contains_row.mpr ⟨by omega, rfl⟩⟩

/-- The buffer after `blackOut`. -/
theorem blockOf_blackOutPixels (hin : e.InBounds width height) {src mem : ℕ → α} {x y : ℕ}
    (hx : x < width) (hy : y < height) :
    blockOf width (e.blackOutPixels black width height src mem) x y =
      if (y < e.y1.toNat ∨ y > e.y2.toNat) ∨ x < e.x1.toNat ∨ e.x2.toNat ≠ 0 ∧ e.x2.toNat ≤ x
      then black else blockOf width src x y := by
  have hcopy : y * width + x < width * height := by
    calc y * width + x < y * width + width := by omega
      _ = (y + 1) * width := (Nat.succ_mul y width).symm
      _ ≤ height * width := Nat.mul_le_mul_right width hy
      _ = width * height := Nat.mul_comm height width
  have hstart : blockOf width (fun i => if i < width * height then src i else mem i) x y =
      blockOf width src x y := if_pos hcopy
  refine (blockOf_foldl_write hx (fun s hs => writes_fit hin hs) hstart).trans ?_
  rw [paintAll_uniform fun s hs => writes_black hs]
  exact if_congr (written_iff hin hx hy) rfl rfl

/-- **The black pixels.** The copy differs from what it is to be in two kinds of pixels. -/
theorem blackened_iff (black : α) (hin : e.InBounds width height) (src mem : ℕ → α) :
    e.Blackened black width height (blockOf width src)
      (blockOf width (e.blackOutPixels black width height src mem)) ↔
    ∀ x < width, ∀ y < height,
      (y = e.y2.toNat ∧ e.x1.toNat ≤ x ∧ x < e.x2.toNat) ∨
        (e.x2.toNat = 0 ∧ e.y1.toNat ≤ y ∧ y ≤ e.y2.toNat) →
      blockOf width src x y = black := by
  have hxle := hin.x_le
  have hyle := hin.y_le
  refine forall₂_congr fun x hx => forall₂_congr fun y hy => ?_
  have hshown : e.Shown x y ↔
    (e.x1.toNat ≤ x ∧ x < e.x2.toNat) ∧ e.y1.toNat ≤ y ∧ y < e.y2.toNat := Iff.rfl
  rw [blockOf_blackOutPixels hin hx hy]
  by_cases hout : (y < e.y1.toNat ∨ y > e.y2.toNat) ∨ x < e.x1.toNat ∨
      e.x2.toNat ≠ 0 ∧ e.x2.toNat ≤ x
  · -- a written pixel is not one of the region
    rw [if_pos hout, if_neg (by rw [hshown]; omega)]
    exact ⟨fun _ h => absurd hout (by omega), fun _ => rfl⟩
  · rw [if_neg hout]
    by_cases hs : e.Shown x y
    · rw [if_pos hs]
      rw [hshown] at hs
      exact ⟨fun _ h => absurd hs (by omega), fun _ => rfl⟩
    · rw [if_neg hs]
      rw [hshown] at hs
      exact ⟨fun h _ => h, fun h => h (by omega)⟩

end DLPEdges

/-! ## From bytes to pixels -/

/-- The pixel that `memset` leaves. -/
def zeroPixel {bytes : ℕ} : Fin bytes → Byte := fun _ => 0

/-- The pixels in a memory, with so many bytes for each. -/
def bufferPixels (bytes : ℕ) (mem : ℕ → Byte) (i : ℕ) : Fin bytes → Byte := fun j =>
  mem (i * bytes + j)

namespace DLPEdges

variable {e : DLPEdges} {width height : ℕ}

/-- The bytes of a row of pixels. -/
def memsetOf (width : ℕ) (s : Subrect (Fin 4 → Byte)) : Memset :=
  ⟨(s.y * width + s.x) * 4, s.w * 4⟩

theorem bufferPixels_write {s : Subrect (Fin 4 → Byte)} (hh : s.h = 1)
    (hblack : s.colour = zeroPixel) (buf : ℕ → Byte) :
    bufferPixels 4 ((memsetOf width s).write buf) = s.write width (bufferPixels 4 buf) := by
  funext i j
  have hcovers : s.Covers width i ↔ s.y * width + s.x ≤ i ∧ i < s.y * width + s.x + s.w := by
    unfold Subrect.Covers
    rw [hh]
    constructor
    · rintro ⟨k, hk, hcover⟩
      obtain rfl : k = 0 := by omega
      exact hcover
    · exact fun hcover => ⟨0, Nat.one_pos, hcover⟩
  have hpixel : s.write width (bufferPixels 4 buf) i =
      if s.y * width + s.x ≤ i ∧ i < s.y * width + s.x + s.w then zeroPixel
      else bufferPixels 4 buf i :=
    if_congr hcovers hblack rfl
  have hbyte : bufferPixels 4 ((memsetOf width s).write buf) i j =
      if (s.y * width + s.x) * 4 ≤ i * 4 + j ∧
        i * 4 + j < (s.y * width + s.x) * 4 + s.w * 4 then 0 else buf (i * 4 + j) := rfl
  rw [hpixel, hbyte]
  by_cases hin : s.y * width + s.x ≤ i ∧ i < s.y * width + s.x + s.w
  · rw [if_pos hin, if_pos (by omega)]
    rfl
  · rw [if_neg hin, if_neg (by omega)]
    rfl

theorem bufferPixels_foldl : ∀ {ss : List (Subrect (Fin 4 → Byte))} {buf : ℕ → Byte},
    (∀ s ∈ ss, s.h = 1 ∧ s.colour = zeroPixel) →
      bufferPixels 4 ((ss.map (memsetOf width)).foldl (fun buf m => m.write buf) buf) =
        ss.foldl (fun buf s => s.write width buf) (bufferPixels 4 buf)
  | [], _, _ => rfl
  | s :: ss, buf, h => by
    obtain ⟨⟨hh, hblack⟩, hss⟩ := List.forall_mem_cons.mp h
    rw [List.map_cons, List.foldl_cons, List.foldl_cons, bufferPixels_foldl hss,
      bufferPixels_write hh hblack]

/-- A region that ends in the framebuffer is blacked out pixel by pixel. -/
theorem rowMemsets_eq (hw : width < 65536) (hx2 : e.x2.toNat ≤ width) (y : ℕ) :
    e.rowMemsets width y = (e.rowWrites zeroPixel width y).map (memsetOf width) := by
  have hdata : y * (width * 4) = y * width * 4 := (Nat.mul_assoc _ _ _).symm
  have hn : (BitVec.ofInt 64 (((width : ℤ) - e.x2.toNat) * 4)).toNat =
      (width - e.x2.toNat) * 4 := by
    rw [BitVec.toNat_ofInt]
    omega
  unfold rowMemsets rowWrites memsetOf
  dsimp only
  rw [hn, hdata]
  split
  · simp
  · rw [List.map_append]
    congr 1 <;> split <;> simp [Nat.add_mul]

theorem bufferPixels_blackOut (hw : width < 65536) (hx2 : e.x2.toNat ≤ width)
    (src mem : ℕ → Byte) :
    bufferPixels 4 (e.blackOut width height src mem) =
      e.blackOutPixels zeroPixel width height (bufferPixels 4 src) (bufferPixels 4 mem) := by
  have hmemsets : (List.range height).flatMap (e.rowMemsets width) =
      (e.writes zeroPixel width height).map (memsetOf width) := by
    rw [writes, List.map_flatMap]
    exact List.flatMap_congr fun y _ => rowMemsets_eq hw hx2 y
  have hrows : ∀ s ∈ e.writes (zeroPixel : Fin 4 → Byte) width height,
      s.h = 1 ∧ s.colour = zeroPixel := by
    intro s hs
    refine ⟨?_, writes_black hs⟩
    obtain ⟨y, -, hrow⟩ := mem_writes.mp hs
    rcases mem_rowWrites.mp hrow with ⟨-, rfl⟩ | ⟨-, ⟨-, rfl⟩ | ⟨-, rfl⟩⟩ <;> rfl
  unfold blackOut blackOutPixels
  rw [hmemsets, bufferPixels_foldl hrows]
  congr 1
  funext i j
  have hindex : i * 4 + j < width * 4 * height ↔ i < width * height := by
    rw [Nat.mul_right_comm]
    omega
  rw [apply_ite (fun pixel : Fin 4 → Byte => pixel j)]
  exact if_congr hindex rfl rfl

/-- **The writes** stay inside with four bytes for a pixel, or where there is no pixel. -/
theorem writesInRows_iff (pixel : PixelWidth) (hw : width < 65536)
    (hin : e.InBounds width height) :
    e.WritesInRows pixel.bytes width height ↔ pixel = .bpp32 ∨ width = 0 ∨ height = 0 := by
  constructor
  · intro h
    by_contra hnot
    simp only [not_or] at hnot
    obtain ⟨hpixel, hwidth, hheight⟩ := hnot
    have hfew : pixel.bytes < 4 := by
      cases pixel with
      | bpp8 => decide
      | bpp16 => decide
      | bpp32 => exact absurd rfl hpixel
    have hless : width * pixel.bytes * height < width * 4 * height :=
      Nat.mul_lt_mul_of_pos_right
        (Nat.mul_lt_mul_of_pos_left hfew (Nat.pos_of_ne_zero hwidth)) (Nat.pos_of_ne_zero hheight)
    exact absurd h.copy (Nat.not_le.mpr hless)
  · intro h
    have hx := hin.x_le
    have hx2 := hin.x2_le
    have hstride : width * 4 * height ≤ width * pixel.bytes * height ∧
        (0 < height → width * 4 = width * pixel.bytes) := by
      rcases h with rfl | rfl | rfl
      · exact ⟨le_rfl, fun _ => rfl⟩
      · simp
      · simp
    refine ⟨hstride.1, fun y hy m hm => ?_⟩
    rw [rowMemsets_eq hw hx2] at hm
    obtain ⟨s, hs, rfl⟩ := List.mem_map.mp hm
    have hfit := writes_fit hin (mem_writes.mpr ⟨y, hy, hs⟩)
    have hrow : s.y = y := by
      rcases mem_rowWrites.mp hs with ⟨-, rfl⟩ | ⟨-, ⟨-, rfl⟩ | ⟨-, rfl⟩⟩ <;> rfl
    have hnext : (y + 1) * (width * 4) = y * width * 4 + width * 4 := by
      rw [Nat.succ_mul, Nat.mul_assoc]
    rw [← hstride.2 (Nat.zero_lt_of_lt hy), hnext, ← Nat.mul_assoc]
    show y * width * 4 ≤ (s.y * width + s.x) * 4 ∧ (s.y * width + s.x) * 4 + s.w * 4 ≤ _
    rw [hrow]
    omega

end DLPEdges

/-! ## Clicks -/

/-- Where not all clicks are allowed, those from outside the region are skipped and no
others. -/
def ClicksMatch (region : Rect) (allowClick : Bool) (calls : List DesktopCall) : Prop :=
  ∀ pos abspos buttonMask skipClick skipRelease scrollX scrollY,
    .pointer pos abspos buttonMask skipClick skipRelease scrollX scrollY ∈ calls →
      (skipClick = true ↔ abspos ∉ Region.ofRect region ∧ allowClick = false)

/-- Where the pointer is put. -/
def newPosition (env : PointerEnv) (c : InputConn) (msg : PointerMsg) : Point :=
  if msg.x &&& 0x4000 ≠ 0 then
    (InputConn.moveBy c.pointerEventPos.1 (InputConn.relative msg.x) env.width,
      InputConn.moveBy c.pointerEventPos.2 (InputConn.relative msg.y) env.height)
  else (msg.x, msg.y)

/-- The event goes on to the desktop. -/
def Passed (env : PointerEnv) (c : InputConn) : Prop :=
  c.may AccessPtrEvents = true ∧ env.acceptPointerEvents = true ∧ env.otherPointerClient = false

section Clicks

variable {region : Rect} {env : PointerEnv} {c : InputConn} {msg : PointerMsg}

/-- The test of the positions. -/
theorem outside_iff (region : Rect) (p : Point) :
    (decide (p.1 < region.tl.1) || decide (p.1 ≥ region.br.1) ||
      decide (p.2 < region.tl.2) || decide (p.2 ≥ region.br.2)) = true ↔
    p ∉ Region.ofRect region := by
  rw [Region.mem_ofRect]
  simp only [Bool.or_eq_true, decide_eq_true_eq]
  omega

theorem clicksMatch_nil {allowClick : Bool} : ClicksMatch region allowClick [] := by
  intro _ _ _ _ _ _ _ h
  cases h

theorem clicksMatch_singleton {allowClick skipClick skipRelease : Bool} {pos abspos : Point}
    {buttonMask : ℕ} {scrollX scrollY : ℤ} :
    ClicksMatch region allowClick
      [.pointer pos abspos buttonMask skipClick skipRelease scrollX scrollY] ↔
    (skipClick = true ↔ abspos ∉ Region.ofRect region ∧ allowClick = false) := by
  constructor
  · intro h
    exact h _ _ _ _ _ _ _ List.mem_cons_self
  · intro h _ _ _ _ _ _ _ hmem
    cases List.mem_singleton.mp hmem
    exact h

theorem pointerEvent_dropped (h : ¬Passed env c) : (c.pointerEvent env msg).2 = [] := by
  unfold InputConn.pointerEvent
  by_cases hmay : c.may AccessPtrEvents = true
  · by_cases haccept : env.acceptPointerEvents = true
    · have hother : env.otherPointerClient = true := by
        rw [← Bool.not_eq_false]
        exact fun hfree => h ⟨hmay, haccept, hfree⟩
      rw [hmay, haccept, hother]
      rfl
    · rw [hmay, Bool.eq_false_of_not_eq_true haccept]
      rfl
  · rw [Bool.eq_false_of_not_eq_true hmay]
    rfl

theorem pointerEvent_passed (msg : PointerMsg) (h : Passed env c)
    (hregion : env.dlpRegion = some region) :
    ∃ newpos skipRelease, (c.pointerEvent env msg).2 =
      [.pointer newpos (newPosition env c msg) msg.buttonMask
        ((decide ((msg.x : ℤ) < region.tl.1) || decide ((msg.x : ℤ) ≥ region.br.1) ||
          decide ((msg.y : ℤ) < region.tl.2) || decide ((msg.y : ℤ) ≥ region.br.2)) &&
            !env.allowClick) skipRelease msg.scrollX msg.scrollY] := by
  obtain ⟨hmay, haccept, hother⟩ := h
  unfold InputConn.pointerEvent newPosition
  rw [hmay, haccept, hother, hregion]
  by_cases hrel : msg.x &&& 0x4000 ≠ 0
  · rw [if_pos hrel, decide_eq_true hrel]
    exact ⟨_, _, rfl⟩
  · rw [if_neg hrel, decide_eq_false hrel]
    exact ⟨_, _, rfl⟩

/-- **The clicks.** The test takes the coordinates of the event for the position. -/
theorem clicksMatch_iff (c : InputConn) (msg : PointerMsg)
    (hregion : env.dlpRegion = some region) :
    ClicksMatch region env.allowClick (c.pointerEvent env msg).2 ↔
    (Passed env c → env.allowClick = false →
      (((msg.x, msg.y) : Point) ∈ Region.ofRect region ↔
        newPosition env c msg ∈ Region.ofRect region)) := by
  by_cases hpassed : Passed env c
  · obtain ⟨newpos, skipRelease, hcalls⟩ := pointerEvent_passed msg hpassed hregion
    rw [hcalls, clicksMatch_singleton, Bool.and_eq_true,
      outside_iff region (msg.x, msg.y), Bool.not_eq_true']
    constructor
    · intro h _ hclick
      exact not_iff_not.mp (by simpa [hclick] using h)
    · intro h
      exact and_congr_left fun hclick => not_congr (h hpassed hclick)
  · rw [pointerEvent_dropped hpassed]
    exact iff_of_true clicksMatch_nil fun h => absurd h hpassed

end Clicks

/-! ## The region and the rest -/

/-- What the region is there for, at one update and one pointer event, with pixels of this
width. -/
structure RegionKept (r : DLPRegion) (pixel : PixelWidth) (width height : ℕ)
    (src mem : ℕ → Byte) (env : PointerEnv) (c : InputConn) (msg : PointerMsg) : Prop where
  inBounds : (r.translateDLPRegion width height).InBounds width height
  writesInRows : (r.translateDLPRegion width height).WritesInRows pixel.bytes width height
  blackened : (r.translateDLPRegion width height).Blackened zeroPixel width height
    (blockOf width (bufferPixels pixel.bytes src))
    (blockOf width (bufferPixels pixel.bytes
      ((r.translateDLPRegion width height).blackOut width height src mem)))
  clicks : ClicksMatch (r.translateDLPRegion width height).rect env.allowClick
    (c.pointerEvent { env with
      dlpRegion := some (r.translateDLPRegion width height).rect } msg).2

/-- If the coordinates of the event are offsets that move the pointer, then as a position they
are in the region if and only if the pointer gets there. -/
def OffsetsAgree (r : DLPRegion) (width height : ℕ) (env : PointerEnv) (c : InputConn)
    (msg : PointerMsg) : Prop :=
  Passed env c → env.allowClick = false → msg.x &&& 0x4000 ≠ 0 →
    (r.Holds width height (msg.x, msg.y) ↔ r.Holds width height
      (InputConn.moveBy c.pointerEventPos.1 (InputConn.relative msg.x) env.width,
        InputConn.moveBy c.pointerEventPos.2 (InputConn.relative msg.y) env.height))

theorem offsetsAgree_iff {r : DLPRegion} {width height : ℕ} {env : PointerEnv} {c : InputConn}
    {msg : PointerMsg} : OffsetsAgree r width height env c msg ↔
      (Passed env c → env.allowClick = false →
        (r.Holds width height (msg.x, msg.y) ↔
          r.Holds width height (newPosition env c msg))) := by
  unfold OffsetsAgree newPosition
  refine forall₂_congr fun _ _ => ?_
  by_cases hrel : msg.x &&& 0x4000 ≠ 0
  · rw [if_pos hrel]
    exact forall_prop_of_true hrel
  · rw [if_neg hrel]
    exact iff_of_true (fun h => absurd h hrel) Iff.rfl

/-- **The region.** Pixels have four bytes, unless there are none, its sides are in order,
the pixels that `blackOut` forgets are black already, and the offsets of relative moves
happen to agree with the position. -/
theorem regionKept_iff (r : DLPRegion) (pixel : PixelWidth) {width height : ℕ}
    (hw : width < 65536) (hh : height < 65536) (src mem : ℕ → Byte) (env : PointerEnv)
    (c : InputConn) (msg : PointerMsg) :
    RegionKept r pixel width height src mem env c msg ↔
      (pixel = .bpp32 ∨ width = 0 ∨ height = 0) ∧
      r.InOrder width height ∧
      (∀ x < width, ∀ y < height, r.Forgotten width height x y →
        blockOf width (bufferPixels pixel.bytes src) x y = zeroPixel) ∧
      OffsetsAgree r width height env c msg := by
  have hbounds := inBounds_iff (r := r) hw hh
  have hclicks := clicksMatch_iff c msg
    (rfl : ({ env with dlpRegion := some (r.translateDLPRegion width height).rect } :
      PointerEnv).dlpRegion = _)
  have hagree : OffsetsAgree r width height env c msg ↔ _ := offsetsAgree_iff
  simp only [mem_rect] at hclicks
  have hpixels : (r.translateDLPRegion width height).InBounds width height →
      (pixel = .bpp32 ∨ width = 0 ∨ height = 0) →
      ((r.translateDLPRegion width height).Blackened zeroPixel width height
        (blockOf width (bufferPixels pixel.bytes src))
        (blockOf width (bufferPixels pixel.bytes
          ((r.translateDLPRegion width height).blackOut width height src mem))) ↔
        ∀ x < width, ∀ y < height, r.Forgotten width height x y →
          blockOf width (bufferPixels pixel.bytes src) x y = zeroPixel) := by
    rintro hin (rfl | rfl | rfl)
    · have hwords := @DLPEdges.bufferPixels_blackOut _ _ height hw hin.x2_le src mem
      show _ ↔ ∀ x < width, ∀ y < height, _ → blockOf width (bufferPixels 4 src) x y = zeroPixel
      rw [show PixelWidth.bpp32.bytes = 4 from rfl, hwords, DLPEdges.blackened_iff zeroPixel hin]
      simp only [forgotten_iff]
    · exact iff_of_true (fun x hx => absurd hx (Nat.not_lt_zero x))
        (fun x hx => absurd hx (Nat.not_lt_zero x))
    · exact iff_of_true (fun x _ y hy => absurd hy (Nat.not_lt_zero y))
        (fun x _ y hy => absurd hy (Nat.not_lt_zero y))
  constructor
  · rintro ⟨hin, hwrites, hpix, hclick⟩
    have hpixel := (DLPEdges.writesInRows_iff pixel hw hin).mp hwrites
    exact ⟨hpixel, hbounds.mp hin, (hpixels hin hpixel).mp hpix, hagree.mpr (hclicks.mp hclick)⟩
  · rintro ⟨hpixel, horder, hpix, hoff⟩
    have hin := hbounds.mpr horder
    exact ⟨hin, (DLPEdges.writesInRows_iff pixel hw hin).mpr hpixel, (hpixels hin hpixel).mpr hpix,
      hclicks.mpr (hagree.mp hoff)⟩

def pointerEnv : PointerEnv := ⟨true, false, 4, 4, none, false, false⟩

/-- Columns 1 and 2 of row 1 in a framebuffer whose row 2 is black. -/
theorem regionKept_blackRow :
    RegionKept ⟨false, 1, 1, 3, 2, 0, 0, 0, 0⟩ .bpp32 4 3 (fun i => if i < 32 then 7 else 0)
      (fun _ => 5) pointerEnv quietConn ⟨2, 1, 1, 0, 0⟩ :=
  (regionKept_iff ⟨false, 1, 1, 3, 2, 0, 0, 0, 0⟩ .bpp32 (by decide) (by decide) _ _ pointerEnv
    quietConn ⟨2, 1, 1, 0, 0⟩).mpr
    ⟨Or.inl rfl, ⟨by decide, by decide, by decide, by decide⟩, by decide,
      fun _ _ h => absurd rfl h⟩

/-- With `1,1,-1,-1` the row below the region is not blackened. -/
theorem bottom_row_shown :
    let r : DLPRegion := ⟨false, 1, 1, -1, -1, 0, 0, 0, 0⟩
    r.translateDLPRegion 4 4 = ⟨1, 1, 3, 3⟩ ∧
      ¬(r.translateDLPRegion 4 4).Blackened zeroPixel 4 4
        (blockOf 4 (bufferPixels 4 fun _ => 7))
        (blockOf 4 (bufferPixels 4
          ((r.translateDLPRegion 4 4).blackOut 4 4 (fun _ => 7) fun _ => 5))) := by
  refine ⟨by decide, fun h => ?_⟩
  exact absurd (h 1 (by decide) 3 (by decide)) (by decide)

end KasmVNC.Rfb
