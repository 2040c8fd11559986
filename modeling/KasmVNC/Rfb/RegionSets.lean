import KasmVNC.Rfb.RegionBands

/-!
# Regions and their sets

A region of the library represents a finite set of points: its boxes are the bands of the set, and
if there are any, its extents are the bounds of the set. Every function of the library that
computes a region computes one that represents the set it should, without writing behind an array.
-/

namespace KasmVNC.Rfb.Xregion

open KasmVNC.Lib

/-! ## Boxes of a set -/

def Box.Has (b : Box) (p : Point) : Prop := (b.x1 ≤ p.1 ∧ p.1 < b.x2) ∧ b.y1 ≤ p.2 ∧ p.2 < b.y2

instance (b : Box) (p : Point) : Decidable (b.Has p) := inferInstanceAs (Decidable (_ ∧ _))

structure Box.Proper (b : Box) : Prop where
  wide : b.x1 < b.x2
  high : b.y1 < b.y2

section

variable {bs : List Band} {S : Region}

theorem mem_boxesOf {r : Box} :
    r ∈ boxesOf bs ↔ ∃ b ∈ bs, ∃ s ∈ b.row, boxAt b.top b.bottom s = r := by
  unfold boxesOf boxes
  simp only [List.mem_flatMap, List.mem_map]

theorem proper_of_mem_boxesOf (h : Banded bs) {r : Box} (hr : r ∈ boxesOf bs) : r.Proper := by
  obtain ⟨b, hb, s, hs, rfl⟩ := mem_boxesOf.mp hr
  exact ⟨(h.proper b hb).spaced.proper s hs, (h.proper b hb).high⟩

/-- The boxes of bands cover the spans of their lines. -/
theorem exists_has_iff (h : Banded bs) (p : Point) :
    (∃ r ∈ boxesOf bs, r.Has p) ↔ OnRow (rowAt bs p.2) p.1 := by
  constructor
  · rintro ⟨r, hr, hx, hy⟩
    obtain ⟨b, hb, s, hs, rfl⟩ := mem_boxesOf.mp hr
    rw [h.rowAt_of_band hb hy]
    exact ⟨s, hs, hx⟩
  · rintro ⟨s, hs, hx⟩
    obtain ⟨b, hb, hy, hrow⟩ := exists_of_rowAt_ne (List.ne_nil_of_mem hs)
    rw [hrow] at hs
    exact ⟨_, mem_boxesOf.mpr ⟨b, hb, s, hs, rfl⟩, hx, hy⟩

theorem onRow_row {x y : ℤ} : OnRow (S.row y) x ↔ (x, y) ∈ S := Region.mem_row

theorem banded_toBands (S : Region) : Banded S.toBands := by
  refine banded_bands (Region.listing_sorted _ _ _) fun y hy => ⟨?_, ?_⟩
  · obtain ⟨p, hp, rfl⟩ := of_decide_eq_true (Region.mem_listing.mp hy).2
    obtain ⟨s, hs, -⟩ := onRow_row.mpr hp
    exact List.ne_nil_of_mem hs
  · exact spaced_spans (Region.listing_sorted _ _ _)

theorem rowAt_toBands (S : Region) (y : ℤ) : rowAt S.toBands y = S.row y := by
  by_cases hne : ∃ q ∈ S, q.2 = y
  · obtain ⟨b, hb, htop, hbottom, hrow⟩ := Region.mem_toBands.mpr ⟨hne, rfl⟩
    rw [(banded_toBands S).rowAt_of_band hb ⟨htop, hbottom⟩, hrow]
  · have hnil : S.row y = [] := by
      refine List.eq_nil_iff_forall_not_mem.mpr fun s hs => hne ?_
      exact ⟨(s.1, y), onRow_row.mp ⟨s, hs, le_rfl, spans_nonempty hs⟩, rfl⟩
    rw [hnil]
    exact rowAt_eq_nil fun b hb hin => hne (Region.mem_toBands.mp ⟨b, hb, hin.1, hin.2, rfl⟩).1

theorem exists_has_toBands (S : Region) (p : Point) :
    (∃ r ∈ boxesOf S.toBands, r.Has p) ↔ p ∈ S := by
  rw [exists_has_iff (banded_toBands S), rowAt_toBands]
  exact onRow_row

/-- **Only the bands of a set cover it.** -/
theorem eq_toBands (h : Banded bs) (hS : ∀ p, OnRow (rowAt bs p.2) p.1 ↔ p ∈ S) :
    bs = S.toBands := by
  refine h.ext (banded_toBands S) fun y => ?_
  refine (h.spaced_rowAt y).ext ((banded_toBands S).spaced_rowAt y) fun x => ?_
  rw [rowAt_toBands]
  exact (hS (x, y)).trans onRow_row.symm

theorem boxesOf_toBands_eq_nil : boxesOf S.toBands = [] ↔ S = ∅ := by
  constructor
  · intro hnil
    refine Finset.eq_empty_of_forall_notMem fun p hp => ?_
    obtain ⟨r, hr, -⟩ := (exists_has_toBands S p).mpr hp
    rw [hnil] at hr
    exact absurd hr List.not_mem_nil
  · rintro rfl
    refine List.eq_nil_iff_forall_not_mem.mpr fun r hr => ?_
    have hproper := proper_of_mem_boxesOf (banded_toBands ∅) hr
    exact Finset.notMem_empty (r.x1, r.y1) ((exists_has_toBands ∅ _).mp
      ⟨r, hr, ⟨le_rfl, hproper.wide⟩, le_rfl, hproper.high⟩)

end

/-! ## Extents -/

/-- The bounds of a set that is not empty. -/
structure Tight (S : Region) (e : Box) : Prop where
  inside : ∀ p ∈ S, e.Has p
  left : ∃ p ∈ S, p.1 = e.x1
  right : ∃ p ∈ S, p.1 + 1 = e.x2
  top : ∃ p ∈ S, p.2 = e.y1
  bottom : ∃ p ∈ S, p.2 + 1 = e.y2

section

variable {S T : Region} {e e' : Box}

theorem Tight.unique (h : Tight S e) (h' : Tight S e') : e = e' := by
  -- none of the bounds of one lies outside those of the other
  have hle : ∀ {e e' : Box}, Tight S e → Tight S e' →
      e.x1 ≤ e'.x1 ∧ e'.x2 ≤ e.x2 ∧ e.y1 ≤ e'.y1 ∧ e'.y2 ≤ e.y2 := by
    intro e e' h h'
    obtain ⟨p1, hp1, hx1⟩ := h'.left
    obtain ⟨p2, hp2, hx2⟩ := h'.right
    obtain ⟨p3, hp3, hy1⟩ := h'.top
    obtain ⟨p4, hp4, hy2⟩ := h'.bottom
    have h1 := (h.inside p1 hp1).1.1
    have h2 := (h.inside p2 hp2).1.2
    have h3 := (h.inside p3 hp3).2.1
    have h4 := (h.inside p4 hp4).2.2
    omega
  obtain ⟨h1, h2, h3, h4⟩ := hle h h'
  obtain ⟨h1', h2', h3', h4'⟩ := hle h' h
  cases e
  cases e'
  simp only [Box.mk.injEq]
  exact ⟨le_antisymm h1 h1', le_antisymm h2' h2, le_antisymm h3 h3', le_antisymm h4' h4⟩

theorem Tight.union (h : Tight S e) (h' : Tight T e') : Tight (S ∪ T) (unionExtents e e') := by
  obtain ⟨hin, hl, hr, ht, hb⟩ := h
  obtain ⟨hin', hl', hr', ht', hb'⟩ := h'
  -- the smaller one of two bounds is that of one of the sets
  have hmin : ∀ {f : Point → ℤ} {a b : ℤ}, (∃ p ∈ S, f p = a) → (∃ p ∈ T, f p = b) →
      ∃ p ∈ S ∪ T, f p = min a b := by
    rintro f a b ⟨p, hp, rfl⟩ ⟨q, hq, rfl⟩
    rcases min_choice (f p) (f q) with heq | heq
    · exact ⟨p, Finset.mem_union_left _ hp, heq.symm⟩
    · exact ⟨q, Finset.mem_union_right _ hq, heq.symm⟩
  have hmax : ∀ {f : Point → ℤ} {a b : ℤ}, (∃ p ∈ S, f p = a) → (∃ p ∈ T, f p = b) →
      ∃ p ∈ S ∪ T, f p = max a b := by
    rintro f a b ⟨p, hp, rfl⟩ ⟨q, hq, rfl⟩
    rcases max_choice (f p) (f q) with heq | heq
    · exact ⟨p, Finset.mem_union_left _ hp, heq.symm⟩
    · exact ⟨q, Finset.mem_union_right _ hq, heq.symm⟩
  refine ⟨fun p hp => ?_, hmin hl hl', hmax hr hr', hmin ht ht', hmax hb hb'⟩
  rcases Finset.mem_union.mp hp with hp | hp
  · obtain ⟨⟨h1, h2⟩, h3, h4⟩ := hin p hp
    exact ⟨⟨(min_le_left _ _).trans h1, h2.trans_le (le_max_left _ _)⟩,
      (min_le_left _ _).trans h3, h4.trans_le (le_max_left _ _)⟩
  · obtain ⟨⟨h1, h2⟩, h3, h4⟩ := hin' p hp
    exact ⟨⟨(min_le_right _ _).trans h1, h2.trans_le (le_max_right _ _)⟩,
      (min_le_right _ _).trans h3, h4.trans_le (le_max_right _ _)⟩

/-- The first and the last point of a box belong to the set. -/
theorem corners_mem {rs : List Box} (hS : ∀ p, (∃ r ∈ rs, r.Has p) ↔ p ∈ S) {r : Box}
    (hr : r ∈ rs) (hproper : r.Proper) : (r.x1, r.y1) ∈ S ∧ (r.x2 - 1, r.y2 - 1) ∈ S := by
  obtain ⟨hwide, hhigh⟩ := hproper
  refine ⟨(hS _).mp ⟨r, hr, ⟨le_rfl, hwide⟩, le_rfl, hhigh⟩, (hS _).mp ⟨r, hr, ?_, ?_⟩⟩
  · exact ⟨Int.le_sub_one_of_lt hwide, Int.sub_one_lt_of_le le_rfl⟩
  · exact ⟨Int.le_sub_one_of_lt hhigh, Int.sub_one_lt_of_le le_rfl⟩

/-- Boxes have the bounds of the set they cover. -/
theorem tight_of_boxes {rs : List Box} (hS : ∀ p, (∃ r ∈ rs, r.Has p) ↔ p ∈ S)
    (hproper : ∀ r ∈ rs, r.Proper)
    (hin : ∀ r ∈ rs, (e.x1 ≤ r.x1 ∧ r.x2 ≤ e.x2) ∧ e.y1 ≤ r.y1 ∧ r.y2 ≤ e.y2)
    (hl : ∃ r ∈ rs, r.x1 = e.x1) (hr : ∃ r ∈ rs, r.x2 = e.x2) (ht : ∃ r ∈ rs, r.y1 = e.y1)
    (hb : ∃ r ∈ rs, r.y2 = e.y2) : Tight S e := by
  have hcorner := fun r hr => corners_mem hS hr (hproper r hr)
  refine ⟨fun p hp => ?_, ?_, ?_, ?_, ?_⟩
  · obtain ⟨r, hr, ⟨hx1, hx2⟩, hy1, hy2⟩ := (hS p).mpr hp
    obtain ⟨⟨h1, h2⟩, h3, h4⟩ := hin r hr
    exact ⟨⟨h1.trans hx1, hx2.trans_le h2⟩, h3.trans hy1, hy2.trans_le h4⟩
  · obtain ⟨r, hr, heq⟩ := hl
    exact ⟨_, (hcorner r hr).1, heq⟩
  · obtain ⟨r, hr, heq⟩ := hr
    exact ⟨_, (hcorner r hr).2, (sub_add_cancel _ _).trans heq⟩
  · obtain ⟨r, hr, heq⟩ := ht
    exact ⟨_, (hcorner r hr).1, heq⟩
  · obtain ⟨r, hr, heq⟩ := hb
    exact ⟨_, (hcorner r hr).2, (sub_add_cancel _ _).trans heq⟩

theorem widen_eq (e b : Box) : widen e b = ⟨min e.x1 b.x1, max e.x2 b.x2, e.y1, e.y2⟩ := by
  have hleft : (if b.x1 < e.x1 then { e with x1 := b.x1 } else e) =
      { e with x1 := min e.x1 b.x1 } := by
    split
    · next hlt => rw [min_eq_right hlt.le]
    · next hge => rw [min_eq_left (not_lt.mp hge)]
  unfold widen
  rw [hleft]
  dsimp only
  split
  · next hlt => rw [max_eq_right hlt.le]
  · next hge => rw [max_eq_left (not_lt.mp hge)]

theorem foldl_widen (rs : List Box) (e : Box) :
    let w := rs.foldl widen e
    (w.y1 = e.y1 ∧ w.y2 = e.y2) ∧ (w.x1 ≤ e.x1 ∧ e.x2 ≤ w.x2) ∧
      (∀ r ∈ rs, w.x1 ≤ r.x1 ∧ r.x2 ≤ w.x2) ∧
      (w.x1 = e.x1 ∨ ∃ r ∈ rs, r.x1 = w.x1) ∧ (w.x2 = e.x2 ∨ ∃ r ∈ rs, r.x2 = w.x2) := by
  induction rs generalizing e with
  | nil =>
    exact ⟨⟨rfl, rfl⟩, ⟨le_rfl, le_rfl⟩, fun _ hr => absurd hr List.not_mem_nil, Or.inl rfl,
      Or.inl rfl⟩
  | cons r rs ih =>
    obtain ⟨hy, hx, hin, hl, hr⟩ := ih (widen e r)
    rw [widen_eq] at hy hx hin hl hr
    rw [List.foldl_cons, widen_eq]
    obtain ⟨hx1, hx2⟩ := hx
    obtain ⟨hx1, hx1'⟩ := le_min_iff.mp hx1
    obtain ⟨hx2, hx2'⟩ := max_le_iff.mp hx2
    refine ⟨hy, ⟨hx1, hx2⟩, List.forall_mem_cons.mpr ⟨⟨hx1', hx2'⟩, hin⟩, ?_, ?_⟩
    · rcases hl with hl | ⟨r', hr', hl⟩
      · rcases min_choice e.x1 r.x1 with heq | heq
        · exact Or.inl (hl.trans heq)
        · exact Or.inr ⟨r, List.mem_cons_self, (hl.trans heq).symm⟩
      · exact Or.inr ⟨r', List.mem_cons_of_mem _ hr', hl⟩
    · rcases hr with hr | ⟨r', hr', hr⟩
      · rcases max_choice e.x2 r.x2 with heq | heq
        · exact Or.inl (hr.trans heq)
        · exact Or.inr ⟨r, List.mem_cons_self, (hr.trans heq).symm⟩
      · exact Or.inr ⟨r', List.mem_cons_of_mem _ hr', hr⟩

/-- No box of bands begins or ends below one that comes later. -/
theorem boxesOf_sorted {bs : List Band} (h : Banded bs) :
    (boxesOf bs).Pairwise fun r t => r.y1 ≤ t.y1 ∧ r.y2 ≤ t.y2 := by
  refine List.pairwise_flatMap.mpr ⟨fun b _ => ?_, ?_⟩
  · exact List.pairwise_map.mpr (List.pairwise_of_forall fun _ _ => ⟨le_rfl, le_rfl⟩)
  · refine h.above.imp_of_mem fun {b c} hb hc habove r hr t ht => ?_
    obtain ⟨s, -, rfl⟩ := List.mem_map.mp hr
    obtain ⟨s', -, rfl⟩ := List.mem_map.mp ht
    exact ⟨(h.proper b hb).high.le.trans habove.1, habove.1.trans (h.proper c hc).high.le⟩

theorem tight_extentsOf (hne : S.Nonempty) : Tight S (extentsOf (boxesOf S.toBands)) := by
  have hbanded := banded_toBands S
  have hsorted := boxesOf_sorted hbanded
  obtain ⟨pBox, boxes, hcons⟩ : ∃ r rs, boxesOf S.toBands = r :: rs :=
    List.exists_cons_of_ne_nil fun hnil => hne.ne_empty (boxesOf_toBands_eq_nil.mp hnil)
  obtain ⟨front, last, hlast⟩ : ∃ front last, pBox :: boxes = front ++ [last] :=
    ⟨_, _, (List.dropLast_concat_getLast (List.cons_ne_nil _ _)).symm⟩
  have hlastMem : last ∈ pBox :: boxes := hlast ▸ List.mem_append_right _ List.mem_cons_self
  have htop : ∀ r ∈ pBox :: boxes, pBox.y1 ≤ r.y1 := by
    rw [hcons] at hsorted
    intro r hr
    rcases List.mem_cons.mp hr with rfl | hr
    · exact le_rfl
    · exact ((List.pairwise_cons.mp hsorted).1 r hr).1
  have hbottom : ∀ r ∈ pBox :: boxes, r.y2 ≤ last.y2 := by
    rw [hcons, hlast] at hsorted
    intro r hr
    rw [hlast] at hr
    rcases List.mem_append.mp hr with hr | hr
    · exact ((List.pairwise_append.mp hsorted).2.2 r hr last List.mem_cons_self).2
    · exact List.mem_singleton.mp hr ▸ le_rfl
  have hextents : extentsOf (boxesOf S.toBands) =
      (pBox :: boxes).foldl widen ⟨pBox.x1, last.x2, pBox.y1, last.y2⟩ := by
    have hlast' : (pBox :: boxes).getLastD pBox = last := by
      rw [hlast]
      exact List.getLastD_concat
    rw [hcons]
    show (pBox :: boxes).foldl widen ⟨_, ((pBox :: boxes).getLastD pBox).x2, _,
      ((pBox :: boxes).getLastD pBox).y2⟩ = _
    rw [hlast']
  obtain ⟨⟨hy1, hy2⟩, -, hin, hl, hr⟩ :=
    foldl_widen (pBox :: boxes) ⟨pBox.x1, last.x2, pBox.y1, last.y2⟩
  rw [hextents]
  refine @tight_of_boxes S _ (pBox :: boxes) (hcons ▸ exists_has_toBands S)
    (fun r hr => proper_of_mem_boxesOf hbanded (hcons ▸ hr)) (fun r hr => ⟨hin r hr, ?_, ?_⟩)
    ?_ ?_ ⟨pBox, List.mem_cons_self, hy1.symm⟩ ⟨last, hlastMem, hy2.symm⟩
  · exact hy1.le.trans (htop r hr)
  · exact (hbottom r hr).trans hy2.ge
  · exact hl.elim (fun heq => ⟨pBox, List.mem_cons_self, heq.symm⟩) id
  · exact hr.elim (fun heq => ⟨last, hlastMem, heq.symm⟩) id

end

end KasmVNC.Rfb.Xregion
