import KasmVNC.Lib.Wire
import Mathlib.Data.List.GetD
import Mathlib.Data.Nat.Basic
import Mathlib.Tactic.Ring

/-!
# Rasters

A pixel is the bytes it takes up in memory, a block of pixels is a colouring of
columns and rows, and its raster lists the rows from left to right, top down. A
block may also be given as a background and a list of one-coloured rectangles
that are painted over it: that is the block as soon as each rectangle has one
colour in it, and each pixel of another colour than the background is in some
rectangle.
-/

namespace KasmVNC.Lib

variable {α : Type*} {κ : Type}

/-! ## Pixels in memory -/

/-- A pixel of `k` bytes. -/
abbrev RawPixel (k : ℕ) := {bytes : List Byte // bytes.length = k}

instance (k : ℕ) (v : RawPixel k) (pixels : List (RawPixel k)) : Decidable (v ∈ pixels) :=
  inferInstance

instance (k : ℕ) : Inhabited (RawPixel k) := ⟨⟨List.replicate k 0, List.length_replicate⟩⟩

/-- Consume a pixel without looking at its bytes. -/
def Reader.readPixel (k : ℕ) : Reader κ (RawPixel k) := fun s =>
  if h : k ≤ s.input.length then
    .ok (⟨s.input.take k, List.length_take_of_le h⟩, { s with input := s.input.drop k })
  else .error "end of stream"

theorem reads_pixel {k : ℕ} (v : RawPixel k) :
    Reads (Reader.readPixel k : Reader κ _) v.val v := by
  obtain ⟨bytes, rfl⟩ := v
  intro rest calls
  have hle : bytes.length ≤ (bytes ++ rest).length := by simp
  show (if h : bytes.length ≤ (bytes ++ rest).length then _ else _) = _
  rw [dif_pos hle]
  simp [Reader.pure_run]

/-- Pieces of one length. -/
theorem length_flatMap_of_length {β : Type*} {f : β → List α} {n : ℕ} :
    ∀ {l : List β}, (∀ x ∈ l, (f x).length = n) → (l.flatMap f).length = l.length * n
  | [], _ => by simp
  | x :: l, h => by
    rw [List.flatMap_cons, List.length_append, h x List.mem_cons_self,
      length_flatMap_of_length fun y hy => h y (List.mem_cons_of_mem x hy), List.length_cons,
      Nat.succ_mul, Nat.add_comm]

/-! ## Blocks and rasters -/

/-- The colours of a block, by column and row. -/
abbrev Block (α : Type*) := ℕ → ℕ → α

/-- The pixels of a block of the given width and height, row by row. -/
def raster (w h : ℕ) (f : Block α) : List α :=
  (List.range h).flatMap fun y => (List.range w).map fun x => f x y

theorem raster_succ (w h : ℕ) (f : Block α) :
    raster w (h + 1) f = raster w h f ++ (List.range w).map fun x => f x h := by
  simp [raster, List.range_succ]

@[simp] theorem length_raster (w h : ℕ) (f : Block α) : (raster w h f).length = h * w := by
  induction h with
  | zero => simp [raster]
  | succ h ih => rw [raster_succ, List.length_append, ih, List.length_map, List.length_range,
      Nat.succ_mul]

theorem mem_raster {w h : ℕ} {f : Block α} {c : α} :
    c ∈ raster w h f ↔ ∃ x < w, ∃ y < h, f x y = c := by
  simp only [raster, List.mem_flatMap, List.mem_map, List.mem_range]
  constructor
  · rintro ⟨y, hy, x, hx, rfl⟩
    exact ⟨x, hx, y, hy, rfl⟩
  · rintro ⟨x, hx, y, hy, rfl⟩
    exact ⟨y, hy, x, hx, rfl⟩

/-- The pixel in column `x` of row `y`. -/
theorem getElem?_raster {w h x y : ℕ} (f : Block α) (hx : x < w) (hy : y < h) :
    (raster w h f)[y * w + x]? = some (f x y) := by
  induction h with
  | zero => omega
  | succ h ih =>
    rw [raster_succ]
    by_cases hlast : y < h
    · have hle : (y + 1) * w ≤ h * w := Nat.mul_le_mul_right w hlast
      rw [List.getElem?_append_left, ih hlast]
      rw [length_raster]
      rw [Nat.succ_mul] at hle
      omega
    · obtain rfl : y = h := by omega
      rw [List.getElem?_append_right (by rw [length_raster]; omega), length_raster,
        Nat.add_sub_cancel_left, List.getElem?_map, List.getElem?_range hx]
      rfl

theorem getD_raster {w h x y : ℕ} (f : Block α) (d : α) (hx : x < w) (hy : y < h) :
    (raster w h f).getD (y * w + x) d = f x y := by
  rw [List.getD_eq_getElem?_getD, getElem?_raster f hx hy]
  rfl

/-- A loop that runs over consecutive numbers while they have a property. -/
theorem takeWhile_range' {P : ℕ → Bool} : ∀ {m a : ℕ},
    ((List.range' a m).takeWhile P).length ≤ m ∧
      ∀ i, a ≤ i → i < a + ((List.range' a m).takeWhile P).length → P i = true
  | 0, a => by simp; omega
  | m + 1, a => by
    obtain ⟨hle, hall⟩ := takeWhile_range' (P := P) (m := m) (a := a + 1)
    rw [List.range'_succ, List.takeWhile_cons]
    by_cases ha : P a = true
    · rw [if_pos ha, List.length_cons]
      refine ⟨by omega, fun i hlo hhi => ?_⟩
      rcases Nat.eq_or_lt_of_le hlo with rfl | hlt
      · exact ha
      · exact hall i hlt (by omega)
    · rw [if_neg ha]
      refine ⟨Nat.zero_le _, fun i hlo hhi => ?_⟩
      rw [List.length_nil] at hhi
      omega

/-! ### Pixels met so far -/

/-- The number of pixels with a property in the first `y` rows and the first `x`
columns of the next one. -/
def countBefore (P : α → Bool) (f : Block α) (w x y : ℕ) : ℕ :=
  (raster w y f).countP P + (List.range x).countP fun p => P (f p y)

section CountBefore

variable {P : α → Bool} {f : Block α} {w h x y : ℕ}

theorem countBefore_mono {x' : ℕ} (h : x ≤ x') :
    countBefore P f w x y ≤ countBefore P f w x' y :=
  Nat.add_le_add_left ((List.range_sublist.mpr h).countP_le) _

/-- Going past a pixel with the property. -/
theorem countBefore_lt {x' : ℕ} (hx : x < x') (hP : P (f x y) = true) :
    countBefore P f w x y + 1 ≤ countBefore P f w x' y := by
  refine le_trans (le_of_eq ?_) (countBefore_mono hx)
  unfold countBefore
  rw [List.range_succ, List.countP_append, List.countP_singleton, if_pos hP, Nat.add_assoc]

theorem countBefore_row : countBefore P f w w y = countBefore P f w 0 (y + 1) := by
  unfold countBefore
  rw [raster_succ, List.countP_append, List.countP_map, List.range_zero, List.countP_nil]
  rfl

theorem countP_raster_mono (hy : y ≤ h) : (raster w y f).countP P ≤ (raster w h f).countP P := by
  induction h, hy using Nat.le_induction with
  | base => exact le_rfl
  | succ h _ ih =>
    rw [raster_succ, List.countP_append]
    omega

theorem countBefore_le (hx : x ≤ w) (hy : y < h) :
    countBefore P f w x y ≤ (raster w h f).countP P :=
  calc countBefore P f w x y ≤ countBefore P f w w y := countBefore_mono hx
    _ = countBefore P f w 0 (y + 1) := countBefore_row
    _ = (raster w (y + 1) f).countP P := by simp [countBefore]
    _ ≤ (raster w h f).countP P := countP_raster_mono hy

end CountBefore

/-! ## Rectangles over a background -/

/-- A one-coloured rectangle of a block. -/
structure Subrect (α : Type*) where
  x : ℕ
  y : ℕ
  w : ℕ
  h : ℕ
  colour : α
deriving DecidableEq

/-- The pixel lies in the rectangle. -/
def Subrect.Contains (s : Subrect α) (p q : ℕ) : Prop :=
  (s.x ≤ p ∧ p < s.x + s.w) ∧ s.y ≤ q ∧ q < s.y + s.h

instance (s : Subrect α) (p q : ℕ) : Decidable (s.Contains p q) :=
  inferInstanceAs (Decidable (_ ∧ _))

/-- Paint one rectangle. -/
def Subrect.paint (s : Subrect α) (f : Block α) : Block α :=
  fun p q => if s.Contains p q then s.colour else f p q

/-- The rectangle has one colour in the block. -/
def Subrect.Shows (s : Subrect α) (f : Block α) : Prop :=
  ∀ p q, s.Contains p q → f p q = s.colour

/-- The background with the rectangles painted over it, in order. -/
def paintAll (f : Block α) (ss : List (Subrect α)) : Block α :=
  ss.foldl (fun g s => s.paint g) f

/-- A pixel that shows the block's colour goes on doing so while rectangles of the
block are painted. -/
theorem paintAll_eq {f : Block α} {p q : ℕ} : ∀ {ss : List (Subrect α)} {g : Block α},
    (∀ s ∈ ss, s.Shows f) → (g p q = f p q ∨ ∃ s ∈ ss, s.Contains p q) →
      paintAll g ss p q = f p q
  | [], g, _, h => by
    rcases h with h | ⟨s, hs, -⟩
    · exact h
    · cases hs
  | s :: ss, g, hshow, h => by
    show paintAll (s.paint g) ss p q = f p q
    refine paintAll_eq (fun t ht => hshow t (List.mem_cons_of_mem s ht)) ?_
    by_cases hs : s.Contains p q
    · left
      rw [Subrect.paint, if_pos hs, hshow s List.mem_cons_self p q hs]
    · rw [Subrect.paint, if_neg hs]
      rcases h with h | ⟨t, ht, hcont⟩
      · exact Or.inl h
      · rcases List.mem_cons.mp ht with rfl | ht
        · exact absurd hcont hs
        · exact Or.inr ⟨t, ht, hcont⟩

/-- Rectangles of one colour cover the pixels in them. -/
theorem paintAll_uniform {ss : List (Subrect α)} {c : α} (hc : ∀ s ∈ ss, s.colour = c)
    (g : Block α) (p q : ℕ) :
    paintAll g ss p q = if ∃ s ∈ ss, s.Contains p q then c else g p q := by
  have hshows : ∀ s ∈ ss,
      s.Shows fun p q => if ∃ t ∈ ss, t.Contains p q then c else g p q := by
    intro s hs p' q' hcont
    rw [hc s hs]
    exact if_pos ⟨s, hs, hcont⟩
  refine paintAll_eq (g := g) hshows ?_
  by_cases hcover : ∃ s ∈ ss, s.Contains p q
  · exact Or.inr hcover
  · exact Or.inl (if_neg hcover).symm

/-! ## Linear buffers -/

/-- Write a rectangle to a buffer with rows of `stride` pixels. -/
def Subrect.write (stride : ℕ) (s : Subrect α) (buf : ℕ → α) : ℕ → α := fun i =>
  if ∃ j < s.h, (s.y + j) * stride + s.x ≤ i ∧ i < (s.y + j) * stride + s.x + s.w then s.colour
  else buf i

/-- The offset lies in a line of the rectangle. -/
def Subrect.Covers (stride : ℕ) (s : Subrect α) (i : ℕ) : Prop :=
  ∃ j < s.h, (s.y + j) * stride + s.x ≤ i ∧ i < (s.y + j) * stride + s.x + s.w

instance (stride : ℕ) (s : Subrect α) (i : ℕ) : Decidable (s.Covers stride i) :=
  inferInstanceAs (Decidable (∃ j < s.h, _))

/-- Rectangles of one colour are written over what they cover, and no more. -/
theorem foldl_write_uniform {stride : ℕ} {c : α} {i : ℕ} : ∀ {ss : List (Subrect α)}
    {buf : ℕ → α}, (∀ s ∈ ss, s.colour = c) →
      ss.foldl (fun buf s => s.write stride buf) buf i =
        if ∃ s ∈ ss, s.Covers stride i then c else buf i
  | [], buf, _ => (if_neg fun ⟨_, hs, _⟩ => absurd hs List.not_mem_nil).symm
  | s :: ss, buf, hc => by
    obtain ⟨hs, hss⟩ := List.forall_mem_cons.mp hc
    rw [List.foldl_cons, foldl_write_uniform hss]
    by_cases hlater : ∃ t ∈ ss, t.Covers stride i
    · obtain ⟨t, ht, hcovers⟩ := hlater
      rw [if_pos ⟨t, ht, hcovers⟩, if_pos ⟨t, List.mem_cons_of_mem s ht, hcovers⟩]
    · rw [if_neg hlater]
      by_cases hfirst : s.Covers stride i
      · rw [if_pos ⟨s, List.mem_cons_self, hfirst⟩, ← hs]
        exact if_pos hfirst
      · rw [if_neg]
        · exact if_neg hfirst
        · rintro ⟨t, ht, hcovers⟩
          rcases List.mem_cons.mp ht with rfl | ht
          · exact hfirst hcovers
          · exact hlater ⟨t, ht, hcovers⟩

/-- The block in a buffer with rows of `stride` pixels. -/
def blockOf (stride : ℕ) (buf : ℕ → α) : Block α := fun x y => buf (y * stride + x)

/-- Rows do not overlap. -/
theorem row_eq_of_index {stride x y j a b : ℕ} (hx : x < stride) (hb : b ≤ stride)
    (hlo : j * stride + a ≤ y * stride + x) (hhi : y * stride + x < j * stride + b) :
    y = j := by
  rcases Nat.lt_trichotomy y j with h | h | h
  · have hle : (y + 1) * stride ≤ j * stride := Nat.mul_le_mul_right stride h
    rw [Nat.succ_mul] at hle
    omega
  · exact h
  · have hle : (j + 1) * stride ≤ y * stride := Nat.mul_le_mul_right stride h
    rw [Nat.succ_mul] at hle
    omega

/-- A rectangle that fits the rows is painted by writing it. -/
theorem blockOf_write {stride : ℕ} {s : Subrect α} (hfit : s.x + s.w ≤ stride) (buf : ℕ → α)
    {p q : ℕ} (hp : p < stride) :
    blockOf stride (s.write stride buf) p q = s.paint (blockOf stride buf) p q := by
  unfold blockOf Subrect.write Subrect.paint
  refine if_congr ?_ rfl rfl
  constructor
  · rintro ⟨j, hj, hlo, hhi⟩
    have hrow : q = s.y + j := row_eq_of_index hp hfit hlo (by omega)
    subst hrow
    unfold Subrect.Contains
    omega
  · rintro ⟨⟨hxlo, hxhi⟩, hylo, hyhi⟩
    refine ⟨q - s.y, by omega, ?_⟩
    rw [Nat.add_sub_cancel' hylo]
    omega

theorem blockOf_foldl_write {w p q : ℕ} (hp : p < w) :
    ∀ {ss : List (Subrect α)} {buf : ℕ → α} {f : Block α},
      (∀ s ∈ ss, s.x + s.w ≤ w) → blockOf w buf p q = f p q →
      blockOf w (ss.foldl (fun buf s => s.write w buf) buf) p q = paintAll f ss p q
  | [], _, _, _, h => h
  | s :: ss, buf, f, hfit, h => by
    refine blockOf_foldl_write hp (f := s.paint f)
      (fun t ht => hfit t (List.mem_cons_of_mem s ht)) ?_
    rw [blockOf_write (hfit s List.mem_cons_self) buf hp]
    exact if_congr Iff.rfl rfl h

/-- The pixels of a buffer with rows of `w` pixels. -/
def bufferBlock {k : ℕ} (w : ℕ) (pixels : List (RawPixel k)) : Block (RawPixel k) :=
  blockOf w fun i => pixels.getD i default

/-- A buffer that was filled row by row with recoded pixels. -/
theorem bufferBlock_raster {k w h x y : ℕ} {f : Block (RawPixel k)}
    {recode : RawPixel k → RawPixel k} (hx : x < w) (hy : y < h) :
    bufferBlock w ((raster w h f).map recode) x y = recode (f x y) := by
  have hmap : (raster w h f).map recode = raster w h fun x y => recode (f x y) := by
    simp [raster, List.map_flatMap, Function.comp_def]
  rw [hmap]
  exact getD_raster (fun x y => recode (f x y)) default hx hy

end KasmVNC.Lib
