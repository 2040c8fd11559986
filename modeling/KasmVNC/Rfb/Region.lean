import KasmVNC.Lib.Bands
import KasmVNC.Lib.Image
import Mathlib.Algebra.Group.Prod
import Mathlib.Order.Interval.Finset.Basic
import Mathlib.Data.Int.Interval
import Mathlib.Data.Finset.Max

/-!
# Points, rectangles and regions

`rfb::Rect` is a half-open rectangle and `rfb::Region` a finite set of pixels.
The X region library keeps a region as banded rectangles in a normal form, so
two regions with the same pixels are the same region; here the pixels are the
region and the rectangles are computed from them.
-/

namespace KasmVNC.Rfb

open KasmVNC.Lib

/-- A pixel position, or an offset between two. -/
abbrev Point := ℤ × ℤ

structure Rect where
  tl : Point
  br : Point
deriving DecidableEq, Repr

namespace Rect

/-- `setXYWH` -/
def ofXYWH (x y w h : ℤ) : Rect := ⟨(x, y), (x + w, y + h)⟩

def width (r : Rect) : ℤ := r.br.1 - r.tl.1

def height (r : Rect) : ℤ := r.br.2 - r.tl.2

def isEmpty (r : Rect) : Bool := r.tl.1 ≥ r.br.1 || r.tl.2 ≥ r.br.2

def area (r : Rect) : ℤ := if r.isEmpty then 0 else r.width * r.height

def translate (r : Rect) (p : Point) : Rect := ⟨r.tl + p, r.br + p⟩

def intersect (r s : Rect) : Rect :=
  let tl : Point := (max r.tl.1 s.tl.1, max r.tl.2 s.tl.2)
  ⟨tl, (max (min r.br.1 s.br.1) tl.1, max (min r.br.2 s.br.2) tl.2)⟩

def enclosedBy (r s : Rect) : Prop :=
  s.tl.1 ≤ r.tl.1 ∧ s.tl.2 ≤ r.tl.2 ∧ r.br.1 ≤ s.br.1 ∧ r.br.2 ≤ s.br.2

instance (r s : Rect) : Decidable (r.enclosedBy s) := inferInstanceAs (Decidable (_ ∧ _))

end Rect

/-- `rfb::Region`: a finite set of pixels. Union, intersection and subtraction
are those of finite sets. -/
abbrev Region := Finset Point

namespace Region

/-- `Region(const Rect&)` -/
def ofRect (r : Rect) : Region :=
  @Finset.Ico ℤ _ Int.instLocallyFiniteOrder r.tl.1 r.br.1 ×ˢ
    @Finset.Ico ℤ _ Int.instLocallyFiniteOrder r.tl.2 r.br.2

theorem mem_ofRect {r : Rect} {p : Point} : p ∈ ofRect r ↔
    (r.tl.1 ≤ p.1 ∧ p.1 < r.br.1) ∧ r.tl.2 ≤ p.2 ∧ p.2 < r.br.2 := by
  simp [ofRect]

theorem mem_ofRect_intersect {r s : Rect} {p : Point} :
    p ∈ ofRect (r.intersect s) ↔ p ∈ ofRect r ∧ p ∈ ofRect s := by
  have haxis : ∀ a b c d x : ℤ, (max a b ≤ x ∧ x < max (min c d) (max a b)) ↔
      (a ≤ x ∧ x < c) ∧ b ≤ x ∧ x < d := by omega
  simp only [mem_ofRect, Rect.intersect, haxis]
  exact and_and_and_comm

def translate (r : Region) (delta : Point) : Region :=
  r.map (addRightEmbedding delta)

@[simp] theorem mem_translate {r : Region} {delta p : Point} :
    p ∈ r.translate delta ↔ p - delta ∈ r := by
  simp only [translate, Finset.mem_map, addRightEmbedding_apply]
  constructor
  · rintro ⟨q, hq, rfl⟩
    rwa [add_sub_cancel_right]
  · exact fun h => ⟨p - delta, h, sub_add_cancel p delta⟩

/-- The extents of the region; all zero when it is empty. -/
def getBoundingRect (r : Region) : Rect :=
  let xs := r.image Prod.fst
  let ys := r.image Prod.snd
  if r = ∅ then ⟨(0, 0), (0, 0)⟩
  else ⟨(xs.min.untopD 0, ys.min.untopD 0), (xs.max.unbotD 0 + 1, ys.max.unbotD 0 + 1)⟩

/-! ## The rectangles of a region -/

/-- The integers `lo ≤ i < hi` with a property, in increasing order. -/
def listing (lo hi : ℤ) (P : ℤ → Bool) : List ℤ :=
  ((List.range (hi - lo).toNat).map fun i : ℕ => lo + i).filter P

theorem mem_listing {lo hi : ℤ} {P : ℤ → Bool} {i : ℤ} :
    i ∈ listing lo hi P ↔ (lo ≤ i ∧ i < hi) ∧ P i = true := by
  simp only [listing, List.mem_filter, List.mem_map, List.mem_range]
  refine and_congr_left fun _ => ⟨?_, fun h => ⟨(i - lo).toNat, by omega, by omega⟩⟩
  rintro ⟨n, hn, rfl⟩
  omega

/-- The spans of a row. -/
def row (r : Region) (y : ℤ) : List (ℤ × ℤ) :=
  spans (listing r.getBoundingRect.tl.1 r.getBoundingRect.br.1 fun x => (x, y) ∈ r)

/-- The bands of the region library's normal form. -/
def toBands (r : Region) : List Band :=
  bands r.row (listing r.getBoundingRect.tl.2 r.getBoundingRect.br.2
    fun y => ∃ p ∈ r, p.2 = y)

/-- `get_rects(rects, left2right, topdown)` -/
def getRects (r : Region) (left2right topdown : Bool) : List Rect :=
  (if topdown then r.toBands else r.toBands.reverse).flatMap fun b =>
    (if left2right then b.row else b.row.reverse).map fun s => ⟨(s.1, b.top), (s.2, b.bottom)⟩

def numRects (r : Region) : ℕ := (r.toBands.map fun b => b.row.length).sum

/-- The order of the rectangles does not change their number. -/
theorem length_getRects (r : Region) (left2right topdown : Bool) :
    (r.getRects left2right topdown).length = r.numRects := by
  have hband : ∀ b : Band, ((if left2right then b.row else b.row.reverse).map
      fun s => (⟨(s.1, b.top), (s.2, b.bottom)⟩ : Rect)).length = b.row.length := by
    intro b
    cases left2right <;> simp
  rw [getRects, List.length_flatMap]
  simp only [hband]
  cases topdown with
  | true => rfl
  | false => exact ((List.reverse_perm _).map _).sum_eq

theorem untopD_min_le {s : Finset ℤ} {i : ℤ} (h : i ∈ s) : s.min.untopD 0 ≤ i := by
  obtain ⟨m, hm⟩ := Finset.min_of_mem h
  rw [hm]
  exact Finset.min_le_of_eq h hm

theorem le_unbotD_max {s : Finset ℤ} {i : ℤ} (h : i ∈ s) : i ≤ s.max.unbotD 0 := by
  obtain ⟨m, hm⟩ := Finset.max_of_mem h
  rw [hm]
  exact Finset.le_max_of_eq h hm

theorem mem_getBoundingRect {r : Region} {p : Point} (h : p ∈ r) :
    (r.getBoundingRect.tl.1 ≤ p.1 ∧ p.1 < r.getBoundingRect.br.1) ∧
      r.getBoundingRect.tl.2 ≤ p.2 ∧ p.2 < r.getBoundingRect.br.2 := by
  have hx : p.1 ∈ r.image Prod.fst := Finset.mem_image_of_mem _ h
  have hy : p.2 ∈ r.image Prod.snd := Finset.mem_image_of_mem _ h
  rw [getBoundingRect, if_neg (Finset.ne_empty_of_mem h)]
  exact ⟨⟨untopD_min_le hx, Int.lt_add_one_of_le (le_unbotD_max hx)⟩,
    untopD_min_le hy, Int.lt_add_one_of_le (le_unbotD_max hy)⟩

theorem mem_row {r : Region} {x y : ℤ} :
    (∃ s ∈ r.row y, s.1 ≤ x ∧ x < s.2) ↔ (x, y) ∈ r := by
  rw [row, mem_spans, mem_listing, decide_eq_true_iff]
  exact and_iff_right_of_imp fun h => (mem_getBoundingRect h).1

theorem mem_toBands {r : Region} {y : ℤ} {sp : List (ℤ × ℤ)} :
    (∃ b ∈ r.toBands, b.top ≤ y ∧ y < b.bottom ∧ b.row = sp) ↔
      (∃ q ∈ r, q.2 = y) ∧ r.row y = sp := by
  rw [toBands, mem_bands, mem_listing, decide_eq_true_iff]
  refine and_congr_left fun _ => and_iff_right_of_imp ?_
  rintro ⟨q, hq, rfl⟩
  exact (mem_getBoundingRect hq).2

theorem mem_getRects_iff {r : Region} {left2right topdown : Bool} {s : Rect} :
    s ∈ r.getRects left2right topdown ↔
      ∃ b ∈ r.toBands, ∃ sp ∈ b.row, (⟨(sp.1, b.top), (sp.2, b.bottom)⟩ : Rect) = s := by
  cases left2right <;> cases topdown <;> simp [getRects]

/-- The rectangles cover exactly the region. -/
theorem mem_getRects {r : Region} {left2right topdown : Bool} {p : Point} :
    (∃ s ∈ r.getRects left2right topdown, p ∈ ofRect s) ↔ p ∈ r := by
  simp only [mem_getRects_iff]
  constructor
  · rintro ⟨-, ⟨b, hb, sp, hsp, rfl⟩, hp⟩
    obtain ⟨hx, htop, hbottom⟩ := mem_ofRect.mp hp
    have hrow := (mem_toBands.mp ⟨b, hb, htop, hbottom, rfl⟩).2
    exact mem_row.mp ⟨sp, hrow ▸ hsp, hx⟩
  · intro hp
    obtain ⟨b, hb, htop, hbottom, hrow⟩ := mem_toBands.mpr ⟨⟨p, hp, rfl⟩, rfl⟩
    obtain ⟨sp, hsp, hx⟩ := mem_row.mpr hp
    exact ⟨_, ⟨b, hb, sp, hrow ▸ hsp, rfl⟩, mem_ofRect.mpr ⟨hx, htop, hbottom⟩⟩

theorem getRects_nonempty {r : Region} {left2right topdown : Bool} {s : Rect}
    (h : s ∈ r.getRects left2right topdown) : s.tl.1 < s.br.1 ∧ s.tl.2 < s.br.2 := by
  obtain ⟨b, hb, sp, hsp, rfl⟩ := mem_getRects_iff.mp h
  refine ⟨?_, bands_nonempty hb⟩
  have hrow := (mem_toBands.mp ⟨b, hb, le_rfl, bands_nonempty hb, rfl⟩).2
  exact spans_nonempty (hrow ▸ hsp)

theorem getRects_eq_nil {r : Region} {left2right topdown : Bool} :
    r.getRects left2right topdown = [] ↔ r = ∅ := by
  constructor
  · intro h
    refine Finset.eq_empty_of_forall_notMem fun p hp => ?_
    have hcover : ∃ s ∈ r.getRects left2right topdown, p ∈ ofRect s := mem_getRects.mpr hp
    simp [h] at hcover
  · rintro rfl
    refine List.eq_nil_iff_forall_not_mem.mpr fun s hs => ?_
    obtain ⟨hx, hy⟩ := getRects_nonempty hs
    have hp : s.tl ∈ ofRect s := mem_ofRect.mpr ⟨⟨le_rfl, hx⟩, le_rfl, hy⟩
    exact Finset.notMem_empty _ (mem_getRects.mp ⟨s, hs, hp⟩)

/-! ## Their order -/

theorem listing_sorted (lo hi : ℤ) (P : ℤ → Bool) : (listing lo hi P).Pairwise (· < ·) := by
  refine List.Pairwise.filter _ (List.pairwise_map.mpr ?_)
  refine List.pairwise_lt_range.imp fun {i j} hij => ?_
  omega

/-- The order in which `get_rects` lists two rectangles. -/
def Precedes (left2right topdown : Bool) (s t : Rect) : Prop :=
  (if topdown then s.br.2 ≤ t.tl.2 else t.br.2 ≤ s.tl.2) ∨
    (s.tl.2 = t.tl.2 ∧ s.br.2 = t.br.2) ∧
      if left2right then s.br.1 ≤ t.tl.1 else t.br.1 ≤ s.tl.1

theorem getRects_sorted (r : Region) (left2right topdown : Bool) :
    (r.getRects left2right topdown).Pairwise (Precedes left2right topdown) := by
  have hbands : r.toBands.Pairwise fun b c => b.bottom ≤ c.top := bands_sorted (listing_sorted ..)
  refine List.pairwise_flatMap.mpr ⟨fun b hb => List.pairwise_map.mpr ?_, ?_⟩
  · -- the spans of one band
    have hb' : b ∈ r.toBands := by
      cases topdown with
      | true => exact hb
      | false => exact List.mem_reverse.mp hb
    have hrow := (mem_toBands.mp ⟨b, hb', le_rfl, bands_nonempty hb', rfl⟩).2
    have hspans : b.row.Pairwise fun s t => s.2 ≤ t.1 := by
      rw [← hrow]
      exact spans_sorted (listing_sorted ..)
    cases left2right with
    | true => exact hspans.imp fun {s t} hst => .inr ⟨⟨rfl, rfl⟩, hst⟩
    | false =>
      exact (List.pairwise_reverse.mpr hspans).imp fun {s t} hst => .inr ⟨⟨rfl, rfl⟩, hst⟩
  · have hof : ∀ {b c : Band}, (if topdown then b.bottom ≤ c.top else c.bottom ≤ b.top) →
        ∀ s ∈ (if left2right then b.row else b.row.reverse).map
          fun s => (⟨(s.1, b.top), (s.2, b.bottom)⟩ : Rect),
        ∀ t ∈ (if left2right then c.row else c.row.reverse).map
          fun s => (⟨(s.1, c.top), (s.2, c.bottom)⟩ : Rect),
        Precedes left2right topdown s t := by
      intro b c hbc s hs t ht
      obtain ⟨s, -, rfl⟩ := List.mem_map.mp hs
      obtain ⟨t, -, rfl⟩ := List.mem_map.mp ht
      exact .inl hbc
    cases topdown with
    | true => exact hbands.imp fun {b c} hbc => hof hbc
    | false => exact (List.pairwise_reverse.mpr hbands).imp fun {b c} hbc => hof hbc

/-- The rectangles do not overlap. -/
theorem getRects_disjoint (r : Region) (left2right topdown : Bool) :
    (r.getRects left2right topdown).Pairwise fun s t => Disjoint (ofRect s) (ofRect t) := by
  refine (getRects_sorted r left2right topdown).imp fun {s t} hst => ?_
  refine Finset.disjoint_left.mpr fun p hs ht => ?_
  rw [mem_ofRect] at hs ht
  unfold Precedes at hst
  split at hst <;> split at hst <;> omega

/-- The copies of the rectangles of a region, listed in the direction of the copy. -/
def rectMoves (r : Region) (delta : Point) : List (Move Point) :=
  (r.getRects (delta.1 ≤ 0) (delta.2 ≤ 0)).map fun s => ⟨ofRect s, delta⟩

/-- In that order, no rectangle is read after it was written. -/
theorem rectMoves_clean (r : Region) (delta : Point) : Clean (r.rectMoves delta) := by
  refine List.pairwise_map.mpr ((getRects_sorted r _ _).imp fun {s t} hst p hp hread => ?_)
  obtain ⟨⟨hl, hr⟩, htop, hbottom⟩ := mem_ofRect.mp hp
  obtain ⟨⟨hl', hr'⟩, htop', hbottom'⟩ := mem_ofRect.mp hread
  rw [Prod.fst_sub] at hl' hr'
  rw [Prod.snd_sub] at htop' hbottom'
  dsimp only at hl' hr' htop' hbottom'
  unfold Precedes at hst
  by_cases hx : delta.1 ≤ 0 <;> by_cases hy : delta.2 ≤ 0 <;>
    simp only [hx, hy, decide_true, decide_false, if_true, if_false, Bool.false_eq_true] at hst <;>
    omega

theorem rectMoves_delta {r : Region} {delta : Point} :
    ∀ m ∈ r.rectMoves delta, m.delta = delta := by
  intro m hm
  obtain ⟨s, -, rfl⟩ := List.mem_map.mp hm
  rfl

theorem writtenBy_rectMoves {r : Region} {delta p : Point} :
    WrittenBy (r.rectMoves delta) p ↔ p ∈ r := by
  rw [← @mem_getRects r (delta.1 ≤ 0) (delta.2 ≤ 0)]
  constructor
  · rintro ⟨m, hm, hp⟩
    obtain ⟨s, hs, rfl⟩ := List.mem_map.mp hm
    exact ⟨s, hs, hp⟩
  · rintro ⟨s, hs, hp⟩
    exact ⟨_, List.mem_map_of_mem hs, hp⟩

/-- **A region is copied at once**, though it is copied rectangle by rectangle. -/
theorem moves_rectMoves {C : Type*} (r : Region) (delta : Point) (f : Point → C) :
    moves (r.rectMoves delta) f = move ⟨r, delta⟩ f :=
  (rectMoves_clean r delta).moves_eq rectMoves_delta (fun _ => writtenBy_rectMoves.symm) f

end Region

end KasmVNC.Rfb
