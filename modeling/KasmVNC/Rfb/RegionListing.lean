import KasmVNC.Rfb.RegionOperations
import Mathlib.Tactic.Ring

/-!
# Listing the rectangles of a region

`rfb::Region::get_rects` walks over the boxes of a region band by band, from either end, and over
those of a band from either side.
-/

namespace KasmVNC.Rfb.Xregion

open KasmVNC.Lib

/-- `rects[i]` -/
def XRegion.box (x : XRegion) (i : ℤ) : Box := x.rects.getD i.toNat ⟨0, 0, 0, 0⟩

def Box.rect (b : Box) : Rect := ⟨(b.x1, b.y1), (b.x2, b.y2)⟩

/-- The inner loop: `firstInNextBand`, what is left of `nRects`, and `nRectsInBand`. -/
def nextBand (x : XRegion) (y1 yInc : ℤ) : ℕ → ℤ → ℕ → ℤ × ℕ × ℕ
  | 0, firstInNextBand, nRectsInBand => (firstInNextBand, 0, nRectsInBand)
  | nRects + 1, firstInNextBand, nRectsInBand =>
    if (x.box firstInNextBand).y1 = y1 then
      nextBand x y1 yInc nRects (firstInNextBand + yInc) (nRectsInBand + 1)
    else (firstInNextBand, nRects + 1, nRectsInBand)

theorem nextBand_le (x : XRegion) (y1 yInc : ℤ) (nRects : ℕ) (i : ℤ) (n : ℕ) :
    (nextBand x y1 yInc nRects i n).2.1 ≤ nRects := by
  induction nRects generalizing i n with
  | zero => exact le_rfl
  | succ nRects ih =>
    unfold nextBand
    split
    · exact (ih _ _).trans (Nat.le_succ _)
    · exact le_rfl

/-- The first box is always taken. -/
theorem nextBand_lt (x : XRegion) (yInc : ℤ) (nRects : ℕ) (i : ℤ) :
    (nextBand x (x.box i).y1 yInc (nRects + 1) i 0).2.1 < nRects + 1 := by
  unfold nextBand
  rw [if_pos rfl]
  exact Nat.lt_succ_of_le (nextBand_le _ _ _ _ _ _)

/-- The boxes of a band, one after the other. -/
def pushBand (x : XRegion) (xInc : ℤ) : ℕ → ℤ → List Rect
  | 0, _ => []
  | nRectsInBand + 1, i => (x.box i).rect :: pushBand x xInc nRectsInBand (i + xInc)

/-- The outer loop. -/
def rectsFrom (x : XRegion) (xInc yInc : ℤ) : ℕ → ℤ → List Rect
  | 0, _ => []
  | nRects + 1, i =>
    let next := nextBand x (x.box i).y1 yInc (nRects + 1) i 0
    pushBand x xInc next.2.2 (if xInc ≠ yInc then next.1 - yInc else i) ++
      rectsFrom x xInc yInc next.2.1 next.1
termination_by nRects => nRects
decreasing_by exact nextBand_lt x yInc nRects i

/-- `get_rects` -/
def get_rects (x : XRegion) (left2right topdown : Bool) : List Rect :=
  let nRects := x.rects.length
  let xInc := if left2right then 1 else -1
  let yInc := if topdown then 1 else -1
  rectsFrom x xInc yInc nRects (if topdown then 0 else nRects - 1)

/-! ## Walks over the boxes -/

section

variable {x : XRegion} {inc i : ℤ} {rs rs' : List Box}

/-- A walk over the boxes meets those of a list. -/
def Meets (x : XRegion) (inc : ℤ) : ℤ → List Box → Prop
  | _, [] => True
  | i, r :: rs => x.box i = r ∧ Meets x inc (i + inc) rs

theorem meets_append : Meets x inc i (rs ++ rs') ↔
    Meets x inc i rs ∧ Meets x inc (i + rs.length * inc) rs' := by
  induction rs generalizing i with
  | nil =>
    have hstart : i + ([] : List Box).length * inc = i := by
      rw [List.length_nil, Nat.cast_zero, zero_mul, add_zero]
    rw [hstart, List.nil_append]
    exact (and_iff_right trivial).symm
  | cons r rs ih =>
    have hnext : i + (r :: rs).length * inc = i + inc + rs.length * inc := by
      rw [List.length_cons, Nat.cast_succ]
      ring
    rw [hnext]
    exact (and_congr_right fun _ => ih).trans and_assoc.symm

/-- The walk back. -/
theorem Meets.reverse (h : Meets x inc i rs) :
    Meets x (-inc) (i + rs.length * inc - inc) rs.reverse := by
  induction rs generalizing i with
  | nil => trivial
  | cons r rs ih =>
    have hlast : i + (r :: rs).length * inc - inc = i + inc + rs.length * inc - inc := by
      rw [List.length_cons, Nat.cast_succ]
      ring
    have hfirst : i + inc + rs.length * inc - inc + rs.reverse.length * -inc = i := by
      rw [List.length_reverse]
      ring
    rw [List.reverse_cons, meets_append, hlast, hfirst]
    exact ⟨ih h.2, h.1, trivial⟩

theorem pushBand_eq (h : Meets x inc i rs) : pushBand x inc rs.length i = rs.map Box.rect := by
  induction rs generalizing i with
  | nil => rfl
  | cons r rs ih =>
    obtain ⟨hr, hrs⟩ := h
    rw [List.length_cons, pushBand, hr, ih hrs, List.map_cons]

/-- The inner loop stops at the first box of another band. -/
theorem nextBand_eq {y1 : ℤ} (h : Meets x inc i (rs ++ rs')) (hrs : ∀ r ∈ rs, r.y1 = y1)
    (hrs' : ∀ r ∈ rs', r.y1 ≠ y1) (n : ℕ) :
    nextBand x y1 inc (rs ++ rs').length i n =
      (i + rs.length * inc, rs'.length, n + rs.length) := by
  induction rs generalizing i n with
  | nil =>
    cases rs' with
    | nil => simp [nextBand]
    | cons r rs' =>
      obtain ⟨hr, -⟩ := h
      show nextBand x y1 inc (rs'.length + 1) i n = _
      rw [nextBand, hr, if_neg (hrs' r List.mem_cons_self)]
      simp
  | cons r rs ih =>
    obtain ⟨hr, hrest⟩ := h
    obtain ⟨hy1, hrs⟩ := List.forall_mem_cons.mp hrs
    show nextBand x y1 inc ((rs ++ rs').length + 1) i n = _
    have hnext : i + inc + rs.length * inc = i + (r :: rs).length * inc := by
      rw [List.length_cons, Nat.cast_succ]
      ring
    rw [nextBand, hr, if_pos hy1, ih hrest hrs, hnext, List.length_cons, Nat.add_right_comm]
    rfl

/-- Boxes in groups that begin on lines of their own. -/
structure Grouped (groups : List (List Box)) : Prop where
  same : ∀ g ∈ groups, g ≠ [] ∧ ∃ y1, ∀ r ∈ g, r.y1 = y1
  differ : groups.Pairwise fun g g' => ∀ r ∈ g, ∀ r' ∈ g', r'.y1 ≠ r.y1

/-- **The walk lists group by group**, and each of them in the order that is asked for. -/
theorem rectsFrom_eq {xInc yInc : ℤ} {groups : List (List Box)} (hg : Grouped groups)
    (h : Meets x yInc i groups.flatten) (hinc : xInc ≠ yInc → xInc = -yInc) :
    rectsFrom x xInc yInc groups.flatten.length i =
      groups.flatMap fun g => (if xInc = yInc then g else g.reverse).map Box.rect := by
  induction groups generalizing i with
  | nil => rw [List.flatten_nil, List.length_nil, rectsFrom, List.flatMap_nil]
  | cons g groups ih =>
    obtain ⟨⟨hne, y1, hy1⟩, hsame⟩ := List.forall_mem_cons.mp hg.same
    obtain ⟨hfirst, hdiffer⟩ := List.pairwise_cons.mp hg.differ
    obtain ⟨r, g', rfl⟩ := List.exists_cons_of_ne_nil hne
    rw [List.flatten_cons] at h
    obtain ⟨hgroup, hrest⟩ := meets_append.mp h
    have hr : (x.box i).y1 = y1 := hgroup.1 ▸ hy1 r List.mem_cons_self
    have hnext : nextBand x (x.box i).y1 yInc ((g' ++ groups.flatten).length + 1) i 0 =
        (i + (r :: g').length * yInc, groups.flatten.length, (r :: g').length) := by
      rw [hr]
      refine (nextBand_eq h hy1 (fun r' hr' => ?_) 0).trans (by rw [Nat.zero_add])
      obtain ⟨g'', hg'', hr'⟩ := List.mem_flatten.mp hr'
      exact hy1 r List.mem_cons_self ▸ hfirst g'' hg'' r List.mem_cons_self r' hr'
    have hpush : pushBand x xInc (r :: g').length
        (if xInc ≠ yInc then i + (r :: g').length * yInc - yInc else i) =
          (if xInc = yInc then r :: g' else (r :: g').reverse).map Box.rect := by
      by_cases hsame : xInc = yInc
      · rw [if_neg (not_not.mpr hsame), if_pos hsame, hsame]
        exact pushBand_eq hgroup
      · have hback := pushBand_eq hgroup.reverse
        rw [List.length_reverse] at hback
        rw [if_pos hsame, if_neg hsame, hinc hsame]
        exact hback
    rw [List.flatten_cons, List.flatMap_cons, ← hpush, ← ih ⟨hsame, hdiffer⟩ hrest]
    show rectsFrom x xInc yInc ((g' ++ groups.flatten).length + 1) i = _
    rw [rectsFrom, hnext]

/-! ## The rectangles of a set -/

theorem meets_of_rects (before : List Box) (h : x.rects = before ++ rs) :
    Meets x 1 before.length rs := by
  induction rs generalizing before with
  | nil => trivial
  | cons r rs ih =>
    refine ⟨?_, ?_⟩
    · unfold XRegion.box
      rw [h, Int.toNat_natCast]
      simp
    · have hrest := ih (before ++ [r]) (by rw [h, List.append_assoc]; rfl)
      rw [List.length_append, Nat.cast_add] at hrest
      exact hrest

theorem Grouped.reverse {groups : List (List Box)} (h : Grouped groups) :
    Grouped (groups.map List.reverse).reverse := by
  refine ⟨fun g hg => ?_, List.pairwise_reverse.mpr (List.pairwise_map.mpr (h.differ.imp ?_))⟩
  · obtain ⟨g, hmem, rfl⟩ := List.mem_map.mp (List.mem_reverse.mp hg)
    obtain ⟨hne, y1, hy1⟩ := h.same g hmem
    exact ⟨fun hnil => hne (List.reverse_eq_nil_iff.mp hnil), y1, fun r hr =>
      hy1 r (List.mem_reverse.mp hr)⟩
  · intro g g' hdiffer r hr r' hr'
    exact (hdiffer r' (List.mem_reverse.mp hr') r (List.mem_reverse.mp hr)).symm

theorem grouped_boxes {bs : List Band} (h : Banded bs) : Grouped (bs.map boxes) := by
  refine ⟨List.forall_mem_map.mpr fun b hb => ?_, List.pairwise_map.mpr (h.above.imp_of_mem ?_)⟩
  · exact ⟨boxes_ne_nil (h.proper b hb).row_ne, b.top, fun r hr => y1_of_mem_boxes hr⟩
  · intro b c hb hc habove r hr r' hr'
    rw [y1_of_mem_boxes hr, y1_of_mem_boxes hr']
    exact ((h.proper b hb).high.trans_le habove.1).ne'

/-- **What is listed are the rectangles of the set**, in the order that is asked for. -/
theorem Represents.get_rects {S : Region} (h : Represents x S) (left2right topdown : Bool) :
    Xregion.get_rects x left2right topdown = S.getRects left2right topdown := by
  have hgrouped := grouped_boxes (banded_toBands S)
  have hrects : x.rects = (S.toBands.map boxes).flatten := h.rects
  have hall : Meets x 1 0 (S.toBands.map boxes).flatten := meets_of_rects [] hrects
  -- a band that is listed forward or backward
  have hband : ∀ (b : Band) (forward : Bool), (if forward then boxes b else (boxes b).reverse).map
      Box.rect = (if forward then b.row else b.row.reverse).map
        fun s => (⟨(s.1, b.top), (s.2, b.bottom)⟩ : Rect) := by
    intro b forward
    unfold boxes
    cases forward with
    | true => exact List.map_map
    | false =>
      show ((b.row.map _).reverse.map _) = b.row.reverse.map _
      rw [← List.map_reverse]
      exact List.map_map
  unfold Xregion.get_rects Region.getRects
  dsimp only
  rw [hrects]
  cases topdown with
  | true =>
    rw [if_pos rfl, if_pos rfl, if_pos rfl, rectsFrom_eq hgrouped hall fun hne => ?_,
      List.flatMap_map]
    · refine congrArg₂ List.flatMap (funext fun b => ?_) rfl
      rw [← hband b left2right]
      cases left2right <;> rfl
    · cases left2right
      · rfl
      · exact absurd rfl hne
  | false =>
    have hback := hall.reverse
    have hflat : (S.toBands.map boxes).flatten.reverse =
        ((S.toBands.map boxes).map List.reverse).reverse.flatten := List.reverse_flatten
    have hlen : (S.toBands.map boxes).flatten.length =
        ((S.toBands.map boxes).map List.reverse).reverse.flatten.length := by
      rw [← hflat, List.length_reverse]
    rw [zero_add, mul_one, hlen, hflat] at hback
    rw [if_neg Bool.false_ne_true, if_neg Bool.false_ne_true, if_neg Bool.false_ne_true, hlen,
      rectsFrom_eq hgrouped.reverse hback fun hne => ?_, ← List.map_reverse, ← List.map_reverse,
      List.flatMap_map, List.flatMap_map]
    · refine congrArg₂ List.flatMap (funext fun b => ?_) rfl
      rw [← hband b left2right]
      cases left2right with
      | true => exact congrArg (List.map Box.rect) (List.reverse_reverse _)
      | false => rfl
    · cases left2right
      · exact absurd rfl hne
      · rfl

end

end KasmVNC.Rfb.Xregion
