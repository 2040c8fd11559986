import KasmVNC.Rfb.Region
import Mathlib.Algebra.BigOperators.Group.List.Basic
import Mathlib.Data.Finset.Card

/-!
# Choosing what is refreshed

Areas that were sent with losses are sent again when there is time. `getLosslessRefresh` grabs
their rectangles at random until the size of an update is used up, and cuts the last one. The
random numbers are a stream; the theorems hold for all of them.
-/

namespace KasmVNC.Rfb

open KasmVNC.Lib

/-! ## The choice -/

/-- As much of the last rectangle as `rest` pixels allow, and at least one line. Use the
narrowest axis to avoid getting too thin rects. -/
def Rect.cutTo (r : Rect) (rest : ℕ) : Rect :=
  if r.width > r.height then
    { r with br := (r.tl.1 + max 1 (rest / r.height), r.br.2) }
  else { r with br := (r.br.1, r.tl.2 + max 1 (rest / r.width)) }

namespace EncodeManager

/-- The loop, at its `n`-th random number. -/
def grabRects (rand : ℕ → ℕ) (maxUpdateSize : ℕ) (n : ℕ) (rects : List Rect) (area : ℕ)
    (refresh : Region) : Region :=
  if h : rects = [] then refresh
  else
    -- Grab a random rect so we don't keep damaging and restoring the same rect over and over
    let idx := rand n % rects.length
    let rect := rects.get ⟨idx, Nat.mod_lt _ (List.length_pos_iff.mpr h)⟩
    -- Add rects until we exceed the threshold, then include as much as possible of the last one
    if area + rect.area.toNat > maxUpdateSize then
      refresh ∪ Region.ofRect (rect.cutTo (maxUpdateSize - area))
    else
      grabRects rand maxUpdateSize (n + 1) (rects.eraseIdx idx) (area + rect.area.toNat)
        (refresh ∪ Region.ofRect rect)
termination_by rects.length
decreasing_by
  rw [List.length_eraseIdx_of_lt (Nat.mod_lt _ (List.length_pos_iff.mpr h))]
  exact Nat.sub_one_lt (mt List.length_eq_zero_iff.mp h)

/-- We make a conservative guess at the compression ratio at 2:1. The size is a word. -/
def getLosslessRefresh (rand : ℕ → ℕ) (lossyRegion req : Region) (maxUpdateSize : ℕ) : Region :=
  grabRects rand (maxUpdateSize * 2 % 18446744073709551616) 0
    ((lossyRegion ∩ req).getRects true true) 0 ∅

/-- What `writeDataUpdate` takes for the size of an update: as many bytes as can be sent until
the next one. The time is an `int`, the product a word. -/
def updateSize (bandwidth : ℕ) (msToNextUpdate : ℤ) : ℕ :=
  (bandwidth * msToNextUpdate % 18446744073709551616).toNat / 1000

/-! ## Areas -/

theorem area_eq {r : Rect} (h : r.tl.1 < r.br.1 ∧ r.tl.2 < r.br.2) :
    r.area = r.width * r.height := by
  have hne : r.isEmpty = false := by
    rw [Rect.isEmpty, Bool.or_eq_false_iff, decide_eq_false_iff_not, decide_eq_false_iff_not]
    omega
  rw [Rect.area, hne, if_neg Bool.false_ne_true]

theorem card_ofRect {r : Rect} (h : r.tl.1 < r.br.1 ∧ r.tl.2 < r.br.2) :
    (Region.ofRect r).card = r.area.toNat := by
  have hmul : (r.width * r.height).toNat = (r.br.1 - r.tl.1).toNat * (r.br.2 - r.tl.2).toNat :=
    Int.toNat_mul (sub_pos.mpr h.1).le (sub_pos.mpr h.2).le
  rw [area_eq h, hmul, Region.ofRect, Finset.card_product, Int.card_Ico, Int.card_Ico]

/-- The areas of rectangles that do not overlap add up. -/
theorem sum_area : ∀ {rects : List Rect}, (∀ r ∈ rects, r.tl.1 < r.br.1 ∧ r.tl.2 < r.br.2) →
    rects.Pairwise (fun r s => Disjoint (Region.ofRect r) (Region.ofRect s)) →
    (rects.map fun r => r.area.toNat).sum = (rects.toFinset.biUnion Region.ofRect).card
  | [], _, _ => rfl
  | r :: rects, hne, hdisj => by
    obtain ⟨hfirst, hrest⟩ := List.pairwise_cons.mp hdisj
    have hapart : Disjoint (Region.ofRect r) (rects.toFinset.biUnion Region.ofRect) :=
      (Finset.disjoint_biUnion_right _ _ _).mpr fun s hs => hfirst s (List.mem_toFinset.mp hs)
    rw [List.toFinset_cons, Finset.biUnion_insert, Finset.card_union_of_disjoint hapart,
      card_ofRect (hne r List.mem_cons_self), List.map_cons, List.sum_cons,
      sum_area (fun s hs => hne s (List.mem_cons_of_mem r hs)) hrest]

/-- A part of the rectangle, and not nothing. -/
theorem cutTo_spec {r : Rect} (h : r.tl.1 < r.br.1 ∧ r.tl.2 < r.br.2) {rest : ℕ}
    (hrest : rest < r.area.toNat) :
    Region.ofRect (r.cutTo rest) ⊆ Region.ofRect r ∧ r.tl ∈ Region.ofRect (r.cutTo rest) := by
  have hwidth : 0 < r.width := sub_pos.mpr h.1
  have hheight : 0 < r.height := sub_pos.mpr h.2
  have harea : (rest : ℤ) < r.width * r.height := by
    rw [area_eq h] at hrest
    omega
  have hcols : (rest : ℤ) / r.height < r.width := Int.ediv_lt_of_lt_mul hheight harea
  have hrows : (rest : ℤ) / r.width < r.height :=
    Int.ediv_lt_of_lt_mul hwidth (by rw [mul_comm]; exact harea)
  have hright : r.br.1 = r.tl.1 + r.width := (add_sub_cancel _ _).symm
  have hbottom : r.br.2 = r.tl.2 + r.height := (add_sub_cancel _ _).symm
  unfold Rect.cutTo
  split
  · refine ⟨fun p hp => ?_, Region.mem_ofRect.mpr ⟨⟨le_rfl, ?_⟩, le_rfl, h.2⟩⟩
    · obtain ⟨⟨hl, hr⟩, hy⟩ := Region.mem_ofRect.mp hp
      dsimp only at hl hr
      exact Region.mem_ofRect.mpr ⟨⟨hl, by omega⟩, hy⟩
    · show r.tl.1 < r.tl.1 + max 1 _
      omega
  · refine ⟨fun p hp => ?_, Region.mem_ofRect.mpr ⟨⟨le_rfl, h.1⟩, le_rfl, ?_⟩⟩
    · obtain ⟨hx, ht, hb⟩ := Region.mem_ofRect.mp hp
      dsimp only at ht hb
      exact Region.mem_ofRect.mpr ⟨hx, ht, by omega⟩
    · show r.tl.2 < r.tl.2 + max 1 _
      omega

/-! ## The loop -/

section Grab

variable (rand : ℕ → ℕ) (maxUpdateSize n : ℕ) {rects : List Rect} (area : ℕ) (refresh : Region)

/-- What happens in one turn. -/
theorem grabRects_cases (h : rects ≠ []) :
    ∃ rect rest, (rect :: rest).Perm rects ∧
      ((area + rect.area.toNat > maxUpdateSize ∧
        grabRects rand maxUpdateSize n rects area refresh =
          refresh ∪ Region.ofRect (rect.cutTo (maxUpdateSize - area))) ∨
      (area + rect.area.toNat ≤ maxUpdateSize ∧
        grabRects rand maxUpdateSize n rects area refresh =
          grabRects rand maxUpdateSize (n + 1) rest (area + rect.area.toNat)
            (refresh ∪ Region.ofRect rect))) := by
  have hidx : rand n % rects.length < rects.length := Nat.mod_lt _ (List.length_pos_iff.mpr h)
  refine ⟨rects.get ⟨_, hidx⟩, rects.eraseIdx (rand n % rects.length),
    List.getElem_cons_eraseIdx_perm hidx, ?_⟩
  rw [grabRects, dif_neg h]
  dsimp only
  split
  case isTrue hover => exact Or.inl ⟨hover, rfl⟩
  case isFalse hfits => exact Or.inr ⟨not_lt.mp hfits, rfl⟩

/-- What the loop makes of the rectangles. -/
structure Grabbed (rects : List Rect) (refresh result : Region) : Prop where
  keeps : refresh ⊆ result
  inside : ∀ p ∈ result, p ∈ refresh ∨ ∃ r ∈ rects, p ∈ Region.ofRect r
  grabs : rects ≠ [] → ∃ r ∈ rects, r.tl ∈ result

theorem grabbed_grabRects (hne : ∀ r ∈ rects, r.tl.1 < r.br.1 ∧ r.tl.2 < r.br.2) :
    Grabbed rects refresh (grabRects rand maxUpdateSize n rects area refresh) := by
  induction hlen : rects.length generalizing n rects area refresh with
  | zero =>
    obtain rfl := List.length_eq_zero_iff.mp hlen
    rw [grabRects, dif_pos rfl]
    exact ⟨Finset.Subset.refl _, fun p hp => Or.inl hp, fun h => absurd rfl h⟩
  | succ len ih =>
    have hpos : rects ≠ [] := by
      rintro rfl
      cases hlen
    obtain ⟨rect, rest, hperm, hturn⟩ :=
      grabRects_cases rand maxUpdateSize n area refresh hpos
    have hmem : ∀ r, r ∈ rect :: rest ↔ r ∈ rects := fun r => hperm.mem_iff
    have hrect := hne rect ((hmem rect).mp List.mem_cons_self)
    rcases hturn with ⟨hover, hres⟩ | ⟨hfits, hres⟩
    · have harea : 0 < rect.area := by
        rw [area_eq hrect]
        exact Int.mul_pos (sub_pos.mpr hrect.1) (sub_pos.mpr hrect.2)
      obtain ⟨hcut, htl⟩ := cutTo_spec hrect
        (show maxUpdateSize - area < rect.area.toNat by omega)
      rw [hres]
      refine ⟨Finset.subset_union_left, fun p hp => ?_, fun _ => ?_⟩
      · exact (Finset.mem_union.mp hp).imp_right fun hp =>
          ⟨rect, (hmem rect).mp List.mem_cons_self, hcut hp⟩
      · exact ⟨rect, (hmem rect).mp List.mem_cons_self, Finset.mem_union_right _ htl⟩
    · have hlen' : rest.length = len := by
        have := hperm.length_eq
        rw [List.length_cons] at this
        omega
      have hrest := ih (n + 1) (area + rect.area.toNat) (refresh ∪ Region.ofRect rect)
        (fun r hr => hne r ((hmem r).mp (List.mem_cons_of_mem rect hr))) hlen'
      rw [hres]
      refine ⟨Finset.subset_union_left.trans hrest.keeps, fun p hp => ?_, fun _ => ?_⟩
      · rcases hrest.inside p hp with hp | ⟨r, hr, hp⟩
        · exact (Finset.mem_union.mp hp).imp_right fun hp =>
            ⟨rect, (hmem rect).mp List.mem_cons_self, hp⟩
        · exact Or.inr ⟨r, (hmem r).mp (List.mem_cons_of_mem rect hr), hp⟩
      · refine ⟨rect, (hmem rect).mp List.mem_cons_self, hrest.keeps ?_⟩
        exact Finset.mem_union_right _
          (Region.mem_ofRect.mpr ⟨⟨le_rfl, hrect.1⟩, le_rfl, hrect.2⟩)

/-- Nothing is cut or left behind if there is room for everything. -/
theorem grabRects_all (hne : ∀ r ∈ rects, r.tl.1 < r.br.1 ∧ r.tl.2 < r.br.2)
    (hroom : area + (rects.map fun r => r.area.toNat).sum ≤ maxUpdateSize) :
    ∀ r ∈ rects, Region.ofRect r ⊆ grabRects rand maxUpdateSize n rects area refresh := by
  induction hlen : rects.length generalizing n rects area refresh with
  | zero =>
    obtain rfl := List.length_eq_zero_iff.mp hlen
    exact fun r hr => absurd hr List.not_mem_nil
  | succ len ih =>
    have hpos : rects ≠ [] := by
      rintro rfl
      cases hlen
    obtain ⟨rect, rest, hperm, hturn⟩ :=
      grabRects_cases rand maxUpdateSize n area refresh hpos
    have hmem : ∀ r, r ∈ rect :: rest ↔ r ∈ rects := fun r => hperm.mem_iff
    have hsum := (hperm.map fun r => r.area.toNat).sum_eq
    rw [List.map_cons, List.sum_cons] at hsum
    rcases hturn with ⟨hover, -⟩ | ⟨-, hres⟩
    · omega
    · have hlen' : rest.length = len := by
        have := hperm.length_eq
        rw [List.length_cons] at this
        omega
      have hne' : ∀ r ∈ rest, r.tl.1 < r.br.1 ∧ r.tl.2 < r.br.2 :=
        fun r hr => hne r ((hmem r).mp (List.mem_cons_of_mem rect hr))
      intro r hr
      rw [hres]
      rcases List.mem_cons.mp ((hmem r).mpr hr) with rfl | hr
      · exact Finset.subset_union_right.trans (grabbed_grabRects rand maxUpdateSize (n + 1)
          (area + r.area.toNat) (refresh ∪ Region.ofRect r) hne').keeps
      · exact ih (n + 1) (area + rect.area.toNat) (refresh ∪ Region.ofRect rect) hne'
          (by omega) hlen' r hr

end Grab

theorem updateSize_lt (bandwidth : ℕ) (msToNextUpdate : ℤ) :
    updateSize bandwidth msToNextUpdate < 2 ^ 63 := by
  unfold updateSize
  omega

/-- **What is refreshed.** For all random numbers the loop ends with a part of what is lossy and
requested, with something of it if there is anything, and with all of it if it fits the size,
which is less than 2^63 in all calls. -/
theorem lossless_refresh_selects (rand : ℕ → ℕ) (lossyRegion req : Region) (maxUpdateSize : ℕ) :
    let refresh := getLosslessRefresh rand lossyRegion req maxUpdateSize
    refresh ⊆ lossyRegion ∩ req ∧ ((lossyRegion ∩ req).Nonempty → refresh.Nonempty) ∧
      (maxUpdateSize < 2 ^ 63 → (lossyRegion ∩ req).card ≤ maxUpdateSize * 2 →
        refresh = lossyRegion ∩ req) ∧
      ∀ bandwidth msToNextUpdate, updateSize bandwidth msToNextUpdate < 2 ^ 63 := by
  intro refresh
  have hne : ∀ r ∈ (lossyRegion ∩ req).getRects true true, r.tl.1 < r.br.1 ∧ r.tl.2 < r.br.2 :=
    fun r hr => Region.getRects_nonempty hr
  have hcover : ∀ p, (∃ r ∈ (lossyRegion ∩ req).getRects true true, p ∈ Region.ofRect r) ↔
      p ∈ lossyRegion ∩ req := fun p => Region.mem_getRects
  have hgrab : Grabbed _ ∅ refresh := grabbed_grabRects rand _ 0 0 ∅ hne
  have hinside : refresh ⊆ lossyRegion ∩ req := by
    intro p hp
    rcases hgrab.inside p hp with hp | hp
    · exact absurd hp (Finset.notMem_empty p)
    · exact (hcover p).mp hp
  refine ⟨hinside, fun hsome => ?_, fun hword hfits => hinside.antisymm fun p hp => ?_,
    updateSize_lt⟩
  · obtain ⟨r, -, hr⟩ := hgrab.grabs fun hnil => hsome.ne_empty (Region.getRects_eq_nil.mp hnil)
    exact ⟨r.tl, hr⟩
  · obtain ⟨r, hr, hp⟩ := (hcover p).mpr hp
    have hunion : ((lossyRegion ∩ req).getRects true true).toFinset.biUnion Region.ofRect =
        lossyRegion ∩ req := by
      ext q
      rw [Finset.mem_biUnion, ← hcover]
      simp only [List.mem_toFinset]
    have harea := sum_area hne (Region.getRects_disjoint _ true true)
    rw [hunion] at harea
    have hword : maxUpdateSize * 2 % 18446744073709551616 = maxUpdateSize * 2 :=
      Nat.mod_eq_of_lt (by omega)
    refine grabRects_all rand _ 0 0 ∅ hne ?_ r hr hp
    rw [harea, hword, zero_add]
    exact hfits

end EncodeManager

end KasmVNC.Rfb
