import KasmVNC.Rfb.RegionSets

/-!
# The operations on regions

Each function of the library computes a region that represents the set it should, whichever of its
arguments are the same region, but for an intersection or a difference of a region with itself that
is to be stored in it.
-/

namespace KasmVNC.Rfb.Xregion

open KasmVNC.Lib RowOp

/-- The region represents the set: its boxes are those of its bands, and if there are any, its
extents are its bounds. -/
structure Represents (x : XRegion) (S : Region) : Prop where
  rects : x.rects = boxesOf S.toBands
  extents : S.Nonempty → Tight S x.extents
  nonempty : 1 ≤ x.size
  fits : x.rects.length ≤ x.size

section

variable {x x' : XRegion} {S T : Region}

theorem Represents.rects_eq_nil (h : Represents x S) : x.rects = [] ↔ S = ∅ := by
  rw [h.rects]
  exact boxesOf_toBands_eq_nil

theorem Represents.nonempty_of (h : Represents x S) (hne : x.rects ≠ []) : S.Nonempty :=
  Finset.nonempty_iff_ne_empty.mpr fun hS => hne (h.rects_eq_nil.mpr hS)

theorem Represents.exists_has (h : Represents x S) (p : Point) :
    (∃ r ∈ x.rects, r.Has p) ↔ p ∈ S := by
  rw [h.rects]
  exact exists_has_toBands S p

theorem represents_empty {size : ℕ} {e : Box} (h : 1 ≤ size) : Represents ⟨size, [], e⟩ ∅ :=
  ⟨(boxesOf_toBands_eq_nil.mpr rfl).symm, fun hne => absurd hne Finset.not_nonempty_empty, h,
    Nat.zero_le _⟩

theorem Represents.create : Represents XCreateRegion ∅ := represents_empty le_rfl

end

section

variable {ι : Type*} {m : ι → XRegion} {S : ι → Region} {reg1 reg2 newReg : ι}

/-- Every region represents a set. -/
def Stores (m : ι → XRegion) (S : ι → Region) : Prop := ∀ i, Represents (m i) (S i)

/-- Regions whose extents do not overlap have no point in common. -/
theorem disjoint_of_extentCheck {A B : Region} {e e' : Box} (h : Tight A e) (h' : Tight B e')
    (hcheck : extentCheck e e' = false) : Disjoint A B := by
  refine Finset.disjoint_left.mpr fun p hp hp' => ?_
  obtain ⟨⟨h1, h2⟩, h3, h4⟩ := h.inside p hp
  obtain ⟨⟨h1', h2'⟩, h3', h4'⟩ := h'.inside p hp'
  have htrue : extentCheck e e' = true := by
    simp only [extentCheck, Bool.and_eq_true, decide_eq_true_eq]
    omega
  exact Bool.false_ne_true (hcheck.symm.trans htrue)

/-- What the functions check before they go through the bands. -/
theorem Stores.disjoint (h : Stores m S)
    (hcheck : (m reg1).rects = [] ∨ (m reg2).rects = [] ∨
      !extentCheck (m reg1).extents (m reg2).extents) : Disjoint (S reg1) (S reg2) := by
  rcases hcheck with hnil | hnil | hcheck
  · rw [(h reg1).rects_eq_nil.mp hnil]
    exact Finset.disjoint_empty_left _
  · rw [(h reg2).rects_eq_nil.mp hnil]
    exact Finset.disjoint_empty_right _
  rcases (S reg1).eq_empty_or_nonempty with hS | hne1
  · rw [hS]
    exact Finset.disjoint_empty_left _
  rcases (S reg2).eq_empty_or_nonempty with hS | hne2
  · rw [hS]
    exact Finset.disjoint_empty_right _
  exact disjoint_of_extentCheck ((h reg1).extents hne1) ((h reg2).extents hne2)
    (by simpa using hcheck)

theorem Stores.nonempty (h : Stores m S)
    (hcheck : ¬((m reg1).rects = [] ∨ (m reg2).rects = [] ∨
      !extentCheck (m reg1).extents (m reg2).extents)) :
    (S reg1).Nonempty ∧ (S reg2).Nonempty := by
  rw [not_or, not_or] at hcheck
  exact ⟨(h reg1).nonempty_of hcheck.1, (h reg2).nonempty_of hcheck.2.1⟩

variable [DecidableEq ι]

theorem Stores.set (h : Stores m S) {x : XRegion} {T : Region} (hx : Represents x T) (i : ι) :
    Stores (Function.update m i x) (Function.update S i T) := by
  intro j
  by_cases hj : j = i
  · subst hj
    rw [Function.update_self, Function.update_self]
    exact hx
  · rw [Function.update_of_ne hj, Function.update_of_ne hj]
    exact h j

theorem shrunk_spec {size n : ℕ} (hsize : 1 ≤ size) (hn : n ≤ size) :
    1 ≤ shrunk size n ∧ n ≤ shrunk size n := by
  unfold shrunk
  split_ifs <;> omega

/-- The bands of one set begin where its extents do, or below. -/
theorem Tight.top_le {S : Region} {e : Box} (h : Tight S e) {b : Band} (hb : b ∈ S.toBands) :
    e.y1 ≤ b.top := by
  have hproper := (banded_toBands S).proper b hb
  obtain ⟨s, row, hrow⟩ := List.exists_cons_of_ne_nil hproper.row_ne
  have hs : s ∈ b.row := hrow ▸ List.mem_cons_self
  have hmem : (s.1, b.top) ∈ S := (exists_has_toBands S _).mp ⟨_,
    mem_boxesOf.mpr ⟨b, hb, s, hs, rfl⟩, ⟨le_rfl, hproper.spaced.proper s hs⟩, le_rfl, hproper.high⟩
  exact (h.inside _ hmem).2.1

/-- Where the loop of `miRegionOp` begins. -/
def topOf (e1 e2 : Box) : ℤ := if e1.y1 < e2.y1 then e1.y1 else e2.y1

theorem topOf_le (e1 e2 : Box) : topOf e1 e2 ≤ e1.y1 ∧ topOf e1 e2 ≤ e2.y1 := by
  unfold topOf
  split_ifs <;> omega

/-- **The loop combines two sets line by line.** -/
theorem regionLoop_toBands {A B T : Region} {e1 e2 : Box} {f : BandFuncs} {op : RowOp}
    {P : NewReg → Prop} (hf : Implements f op) (hP : NewReg.Kept P) (h1 : Tight A e1)
    (h2 : Tight B e2) (hT : ∀ p : Point, OnRow (op.row (A.row p.2) (B.row p.2)) p.1 ↔ p ∈ T)
    {size : ℕ} (hstart : P ⟨size, [], false⟩) :
    let filled := regionLoop f (boxesOf A.toBands) (boxesOf B.toBands) (topOf e1 e2) 0
      ⟨size, [], false⟩
    filled.rects = boxesOf T.toBands ∧ P filled := by
  have hbanded1 := banded_toBands A
  have hbanded2 := banded_toBands B
  obtain ⟨htop1, htop2⟩ := topOf_le e1 e2
  have hfresh1 : ∀ b ∈ A.toBands, topOf e1 e2 ≤ b.top := fun b hb => htop1.trans (h1.top_le hb)
  have hfresh2 : ∀ c ∈ B.toBands, topOf e1 e2 ≤ c.top := fun c hc => htop2.trans (h2.top_le hc)
  have hends1 : ∀ b ∈ A.toBands, topOf e1 e2 < b.bottom := fun b hb =>
    (hfresh1 b hb).trans_lt (hbanded1.proper b hb).high
  have hends2 : ∀ c ∈ B.toBands, topOf e1 e2 < c.bottom := fun c hc =>
    (hfresh2 c hc).trans_lt (hbanded2.proper c hc).high
  have hout : BandsTo (topOf e1 e2) [] :=
    ⟨banded_nil, fun _ hb => absurd hb List.not_mem_nil⟩
  have hholds : Holds P [] (⟨size, [], false⟩, 0) := ⟨rfl, rfl, hstart⟩
  obtain ⟨hrects, hkept⟩ := regionLoop_eq hf hP hholds hbanded1 hbanded2 hout hends1 hends2
    (Or.inl hfresh1)
  obtain ⟨hbanded, hrow⟩ := sweep_spec hf.keeps hbanded1 hbanded2 hout hends1 hends2
    (Or.inl hfresh1)
  have hbands : op.sweep A.toBands B.toBands (topOf e1 e2) [] = T.toBands := by
    refine eq_toBands hbanded fun p => Iff.trans ?_ (hT p)
    rw [hrow]
    split
    · next habove =>
        -- above both of the sets
        have hnil : ∀ {R : Region}, (∀ b ∈ R.toBands, topOf e1 e2 ≤ b.top) → R.row p.2 = [] := by
          intro R hR
          rw [← rowAt_toBands]
          exact rowAt_eq_nil fun b hb hin => absurd ((hR b hb).trans hin.1) (not_le.mpr habove)
        rw [hnil hfresh1, hnil hfresh2, row_none]
        rfl
    · rw [rowAt_toBands, rowAt_toBands]
  exact ⟨hbands ▸ hrects, hkept⟩

/-- The new array has room for a box. -/
theorem one_le_size (h : Stores m S) (hne1 : (S reg1).Nonempty) (hne2 : (S reg2).Nonempty)
    (hnames : ¬(reg1 = newReg ∧ reg2 = newReg)) :
    let emptied := Function.update m newReg { m newReg with rects := [] }
    1 ≤ max (emptied reg1).rects.length (emptied reg2).rects.length * 2 := by
  intro emptied
  have hpos : ∀ i, i ≠ newReg → (S i).Nonempty → 1 ≤ (emptied i).rects.length := by
    intro i hi hne
    have hsame : emptied i = m i := Function.update_of_ne hi _ _
    rw [hsame]
    refine List.length_pos_iff.mpr fun hnil => ?_
    exact hne.ne_empty ((h i).rects_eq_nil.mp hnil)
  have hone : 1 ≤ max (emptied reg1).rects.length (emptied reg2).rects.length := by
    rcases not_and_or.mp hnames with hi | hi
    · exact (hpos reg1 hi hne1).trans (le_max_left _ _)
    · exact (hpos reg2 hi hne2).trans (le_max_right _ _)
  omega

/-- **The generic operator** makes a region of the combined set. -/
theorem Stores.miRegionOp {f : BandFuncs} {op : RowOp} (hf : Implements f op) (h : Stores m S)
    (hne1 : (S reg1).Nonempty) (hne2 : (S reg2).Nonempty)
    (hnames : ¬(reg1 = newReg ∧ reg2 = newReg)) {T : Region}
    (hT : ∀ p : Point, OnRow (op.row ((S reg1).row p.2) ((S reg2).row p.2)) p.1 ↔ p ∈ T) :
    ∃ size, Xregion.miRegionOp f newReg reg1 reg2 m = some (Function.update m newReg
      { m newReg with size := size, rects := boxesOf T.toBands }) ∧ 1 ≤ size ∧
        (boxesOf T.toBands).length ≤ size := by
  obtain ⟨hrects, hfits⟩ := regionLoop_toBands hf NewReg.kept_fits ((h reg1).extents hne1)
    ((h reg2).extents hne2) hT ⟨rfl, one_le_size h hne1 hne2 hnames, Nat.zero_le _⟩
  obtain ⟨hpos, hle⟩ := shrunk_spec hfits.nonempty hfits.length_le
  unfold Xregion.miRegionOp
  dsimp only
  rw [← topOf, (h reg1).rects, (h reg2).rects,
    if_neg (by rw [hfits.kept]; exact Bool.false_ne_true), hrects]
  rw [hrects] at hpos hle
  exact ⟨_, rfl, hpos, hle⟩

theorem spaced_row (T : Region) (y : ℤ) : Lib.Spaced (T.row y) :=
  spaced_spans (Region.listing_sorted _ _ _)

/-- The extents of a region are computed from its boxes. -/
theorem Stores.setExtents (h : Stores m S) {x : XRegion} {T : Region}
    (hrects : x.rects = boxesOf T.toBands) (hone : 1 ≤ x.size) (hfits : x.rects.length ≤ x.size) :
    Stores (miSetExtents newReg (Function.update m newReg x)) (Function.update S newReg T) := by
  unfold miSetExtents
  rw [Function.update_self, Function.update_idem]
  have hset : Represents { x with extents := extentsOf x.rects } T :=
    ⟨hrects, fun hne => hrects.symm ▸ tight_extentsOf hne, hone, hfits⟩
  exact h.set hset newReg

theorem Stores.intersect (h : Stores m S) (hnames : ¬(reg1 = newReg ∧ reg2 = newReg)) :
    ∃ m', XIntersectRegion reg1 reg2 newReg m = some m' ∧
      Stores m' (Function.update S newReg (S reg1 ∩ S reg2)) := by
  unfold XIntersectRegion
  dsimp only
  split
  · next hcheck =>
      rw [Finset.disjoint_iff_inter_eq_empty.mp (h.disjoint hcheck), Option.map_some]
      exact ⟨_, rfl, h.setExtents (boxesOf_toBands_eq_nil.mpr rfl).symm (h newReg).nonempty
        (Nat.zero_le _)⟩
  · next hcheck =>
      obtain ⟨hne1, hne2⟩ := h.nonempty hcheck
      obtain ⟨size, hop, hone, hfits⟩ := h.miRegionOp implements_inter hne1 hne2 hnames
        (T := S reg1 ∩ S reg2) fun p => by
          rw [onRow_inter (spaced_row _ _) (spaced_row _ _), onRow_row, onRow_row, Finset.mem_inter]
      rw [hop, Option.map_some]
      exact ⟨_, rfl, h.setExtents rfl hone hfits⟩

/-- A region is copied over another one. -/
theorem Stores.copy (h : Stores m S) (dstrgn rgn : ι) :
    Stores (miRegionCopy dstrgn rgn m) (Function.update S dstrgn (S rgn)) := by
  unfold miRegionCopy
  split
  · obtain ⟨hrects, hextents, -, -⟩ := h rgn
    have hdst := (h dstrgn).nonempty
    have hcopied : Represents { m rgn with size := if (m dstrgn).size < (m rgn).rects.length then
        (m rgn).rects.length else (m dstrgn).size } (S rgn) := by
      refine ⟨hrects, hextents, ?_, ?_⟩
      · dsimp only
        split_ifs <;> omega
      · dsimp only
        split_ifs <;> omega
    exact h.set hcopied dstrgn
  · next hsame =>
      rw [not_not.mp hsame, Function.update_eq_self]
      exact h

theorem Stores.subtract (h : Stores m S) (hnames : ¬(reg1 = newReg ∧ reg2 = newReg)) :
    ∃ m', XSubtractRegion reg1 reg2 newReg m = some m' ∧
      Stores m' (Function.update S newReg (S reg1 \ S reg2)) := by
  unfold XSubtractRegion
  split
  · next hcheck =>
      rw [Finset.sdiff_eq_self_of_disjoint (h.disjoint hcheck)]
      exact ⟨_, rfl, h.copy newReg reg1⟩
  · next hcheck =>
      obtain ⟨hne1, hne2⟩ := h.nonempty hcheck
      obtain ⟨size, hop, hone, hfits⟩ := h.miRegionOp implements_diff hne1 hne2 hnames
        (T := S reg1 \ S reg2) fun p => by
          rw [onRow_diff (spaced_row _ _) (spaced_row _ _), onRow_row, onRow_row, Finset.mem_sdiff]
      rw [hop, Option.map_some]
      exact ⟨_, rfl, h.setExtents rfl hone hfits⟩

/-- A region of one box that covers the extents of another one has all its points. -/
theorem subset_of_subsumes {x x' : XRegion} {A B : Region} (h : Represents x A)
    (h' : Represents x' B) (hne : B.Nonempty) (hsub : subsumes x x' = true) : B ⊆ A := by
  simp only [subsumes, Bool.and_eq_true, decide_eq_true_eq] at hsub
  obtain ⟨⟨⟨⟨hlen, hx1⟩, hy1⟩, hx2⟩, hy2⟩ := hsub
  obtain ⟨r, hr⟩ := List.length_eq_one_iff.mp hlen
  have htight := h.extents (h.nonempty_of (by rw [hr]; exact List.cons_ne_nil _ _))
  have hone : Tight A r := by
    have hproper : r.Proper := proper_of_mem_boxesOf (banded_toBands A) (by
      rw [← h.rects, hr]
      exact List.mem_singleton_self r)
    refine @tight_of_boxes A r [r] (fun p => hr ▸ h.exists_has p)
      (List.forall_mem_singleton.mpr hproper)
      (List.forall_mem_singleton.mpr ⟨⟨le_rfl, le_rfl⟩, le_rfl, le_rfl⟩) ?_ ?_ ?_ ?_
    all_goals exact ⟨r, List.mem_singleton_self r, rfl⟩
  have hextents : x.extents = r := htight.unique hone
  intro p hp
  obtain ⟨⟨h1, h2⟩, h3, h4⟩ := (h'.extents hne).inside p hp
  refine (h.exists_has p).mp ⟨r, hr ▸ List.mem_singleton_self r, ?_⟩
  rw [← hextents]
  exact ⟨⟨hx1.trans h1, h2.trans_le hx2⟩, hy1.trans h3, h4.trans_le hy2⟩

/-- A union takes the short way out if a set is part of the other one. -/
theorem Stores.union (h : Stores m S) (reg1 reg2 newReg : ι) :
    ∃ m', XUnionRegion reg1 reg2 newReg m = some m' ∧
      Stores m' (Function.update S newReg (S reg1 ∪ S reg2)) := by
  have hcopy : ∀ i, S reg1 ∪ S reg2 = S i → Stores (miRegionCopy newReg i m)
      (Function.update S newReg (S reg1 ∪ S reg2)) := fun i hi => hi ▸ h.copy newReg i
  unfold XUnionRegion
  split
  · next hcheck =>
      refine ⟨_, rfl, hcopy reg2 (Finset.union_eq_right.mpr ?_)⟩
      rcases hcheck with rfl | hnil
      · exact Finset.Subset.refl _
      · rw [(h reg1).rects_eq_nil.mp hnil]
        exact Finset.empty_subset _
  next hcheck =>
  obtain ⟨hnames, hnil1⟩ := not_or.mp hcheck
  have hne1 := (h reg1).nonempty_of hnil1
  split
  · next hnil =>
      refine ⟨_, rfl, hcopy reg1 (Finset.union_eq_left.mpr ?_)⟩
      rw [(h reg2).rects_eq_nil.mp hnil]
      exact Finset.empty_subset _
  next hnil2 =>
  have hne2 := (h reg2).nonempty_of hnil2
  split
  · next hsub =>
      exact ⟨_, rfl, hcopy reg1 (Finset.union_eq_left.mpr
        (subset_of_subsumes (h reg1) (h reg2) hne2 hsub))⟩
  split
  · next hsub =>
      exact ⟨_, rfl, hcopy reg2 (Finset.union_eq_right.mpr
        (subset_of_subsumes (h reg2) (h reg1) hne1 hsub))⟩
  · obtain ⟨size, hop, hone, hfits⟩ := h.miRegionOp implements_union hne1 hne2
      (fun hsame : reg1 = newReg ∧ reg2 = newReg => hnames (hsame.1.trans hsame.2.symm))
      (T := S reg1 ∪ S reg2) fun p => by
        rw [onRow_union (spaced_row _ _) (spaced_row _ _), onRow_row, onRow_row, Finset.mem_union]
    rw [hop, Option.map_some, Function.update_self, Function.update_idem]
    refine ⟨_, rfl, h.set ⟨rfl, fun _ => ?_, hone, hfits⟩ newReg⟩
    exact ((h reg1).extents hne1).union ((h reg2).extents hne2)

/-! ### A region and itself, in place -/

theorem extentCheck_self {A : Region} {e : Box} (h : Tight A e) : extentCheck e e = true := by
  obtain ⟨p, hp, -⟩ := h.left
  obtain ⟨⟨h1, h2⟩, h3, h4⟩ := h.inside p hp
  simp only [extentCheck, Bool.and_eq_true, decide_eq_true_eq]
  omega

/-- The loop on a region and itself, with an array of no size. -/
theorem regionLoop_itself {f : BandFuncs} {frees : Bool}
    (hf : ∀ {b : Band} (y1 y2 : ℤ) (broken : Bool), b.Proper →
      f.overlapFunc y1 y2 (boxes b) (boxes b) ⟨0, [], broken⟩ = ⟨0, [], broken || frees⟩)
    {bs : List Band} (hbs : Banded bs) (ybot : ℤ) (prevBand : ℕ) (broken : Bool) :
    regionLoop f (boxesOf bs) (boxesOf bs) ybot prevBand ⟨0, [], broken⟩ =
      ⟨0, [], broken || (frees && bs ≠ [])⟩ := by
  induction bs generalizing ybot prevBand broken with
  | nil => simp [regionLoop, addRest, coalesceFrom]
  | cons b bs ih =>
    obtain ⟨hproper, -, htail⟩ := banded_cons.mp hbs
    obtain ⟨r1, r2, hr1, hr2, hloop⟩ := regionLoop_cons f ybot prevBand ⟨0, [], broken⟩ hbs hbs
    have halone : addNonOverlap f r1 r2 (boxes b) (boxes b) ybot ⟨0, [], broken⟩ =
        (⟨0, [], broken⟩, b.top) := by
      unfold addNonOverlap
      rw [hr1.1, hr2.1, if_neg (lt_irrefl _), if_neg (lt_irrefl _)]
    have hmeet : min r1.y2 r2.y2 > b.top := by
      rw [hr1.2, hr2.2, min_self]
      exact hproper.high
    rw [hloop, halone, coalesceFrom_same, if_pos hmeet, hf _ _ _ hproper, min_self, if_pos rfl]
    refine (ih htail _ _ _).trans ?_
    cases frees <;> simp

/-- The new array has no size, since the region is marked empty before its boxes are counted. -/
theorem Stores.miRegionOp_itself {f : BandFuncs} {frees : Bool}
    (hf : ∀ {b : Band} (y1 y2 : ℤ) (broken : Bool), b.Proper →
      f.overlapFunc y1 y2 (boxes b) (boxes b) ⟨0, [], broken⟩ = ⟨0, [], broken || frees⟩)
    (h : Stores m S) {a : ι} (hne : (S a).Nonempty) :
    Xregion.miRegionOp f a a a m =
      if frees then none else some (Function.update m a { m a with size := 0, rects := [] }) := by
  have hempty : (Function.update m a { m a with rects := [] } a).rects.length = 0 := by
    rw [Function.update_self]
    rfl
  have hbands : (S a).toBands ≠ [] := fun hnil => by
    refine hne.ne_empty ((h a).rects_eq_nil.mp ?_)
    rw [(h a).rects, hnil]
    rfl
  unfold Xregion.miRegionOp
  dsimp only
  rw [(h a).rects, hempty, max_self, zero_mul,
    regionLoop_itself hf (banded_toBands (S a)), Bool.false_or, decide_eq_true hbands,
    Bool.and_true]
  cases frees <;> rfl

theorem Stores.intersect_itself (h : Stores m S) {a : ι} (hne : (S a).Nonempty) :
    XIntersectRegion a a a m = none := by
  have hrects := mt (h a).rects_eq_nil.mp hne.ne_empty
  have hcheck := extentCheck_self ((h a).extents hne)
  have hfrees : ∀ {b : Band} (y1 y2 : ℤ) (broken : Bool), b.Proper →
      miIntersectO y1 y2 (boxes b) (boxes b) ⟨0, [], broken⟩ = ⟨0, [], broken || true⟩ := by
    intro b y1 y2 broken hb
    rw [miIntersectO_eq, map_span_boxes, interSpans_self hb.spaced, NewReg.adds_of_size_zero,
      decide_eq_true (mt List.map_eq_nil_iff.mp hb.row_ne)]
  have hop := h.miRegionOp_itself (f := intersectFuncs) hfrees hne
  unfold XIntersectRegion
  dsimp only
  rw [if_neg (by simp [hrects, hcheck]), hop, if_pos rfl]
  rfl

theorem Stores.subtract_itself (h : Stores m S) {a : ι} (hne : (S a).Nonempty) :
    XSubtractRegion a a a m = some (Function.update m a ⟨0, [], ⟨0, 0, 0, 0⟩⟩) := by
  have hrects := mt (h a).rects_eq_nil.mp hne.ne_empty
  have hcheck := extentCheck_self ((h a).extents hne)
  have hfrees : ∀ {b : Band} (y1 y2 : ℤ) (broken : Bool), b.Proper →
      miSubtractO y1 y2 (boxes b) (boxes b) ⟨0, [], broken⟩ = ⟨0, [], broken || false⟩ := by
    intro b y1 y2 broken hb
    have hspaced : Lib.Spaced ((boxes b).map Box.span) := (map_span_boxes b).symm ▸ hb.spaced
    rw [miSubtractO_eq hspaced, map_span_boxes, diffSpans_self hb.spaced, Bool.or_false]
    rfl
  have hop := h.miRegionOp_itself (f := subtractFuncs) hfrees hne
  unfold XSubtractRegion miSetExtents
  rw [if_neg (by simp [hrects, hcheck]), hop, if_neg Bool.false_ne_true, Option.map_some,
    Function.update_self, Function.update_idem]
  rfl

end

/-! ## Reading and moving a region -/

section

variable {x x' : XRegion} {S T : Region}

/-- Two regions are equal if they have the same points. -/
theorem Represents.equal (h : Represents x S) (h' : Represents x' T) :
    XEqualRegion x x' = true ↔ S = T := by
  constructor
  · intro heq
    have hrects : x.rects = x'.rects := by
      unfold XEqualRegion at heq
      split at heq
      · exact absurd heq Bool.false_ne_true
      next hlen =>
      have hlen := not_not.mp hlen
      split at heq
      · next hnil =>
          rw [List.length_eq_zero_iff.mp hnil,
            List.length_eq_zero_iff.mp (hlen.symm.trans hnil)]
      split at heq
      · exact absurd heq Bool.false_ne_true
      · refine List.ext_getElem hlen fun i hi hi' => ?_
        have hzip := List.all_eq_true.mp heq (x.rects[i], x'.rects[i])
          (List.mem_iff_getElem.mpr ⟨i, by simp [hi, hi'], List.getElem_zip⟩)
        exact of_decide_eq_true hzip
    refine Finset.ext fun p => ?_
    rw [← h.exists_has, ← h'.exists_has, hrects]
  · rintro rfl
    have hrects : x.rects = x'.rects := h.rects.trans h'.rects.symm
    unfold XEqualRegion
    rw [hrects, if_neg (not_not.mpr rfl)]
    split
    · rfl
    next hne =>
    have hS := h'.nonempty_of fun hnil => hne (by rw [hnil]; rfl)
    rw [(h.extents hS).unique (h'.extents hS), if_neg (not_not.mpr rfl)]
    refine List.all_eq_true.mpr fun p hp => ?_
    obtain ⟨i, hi, rfl⟩ := List.mem_iff_getElem.mp hp
    rw [List.getElem_zip]
    exact decide_eq_true rfl

theorem inBox_iff {r : Box} {px py : ℤ} : inBox r px py = true ↔ r.Has (px, py) := by
  simp only [inBox, Box.Has, Bool.and_eq_true, decide_eq_true_eq]
  omega

theorem Represents.pointIn (h : Represents x S) (px py : ℤ) :
    XPointInRegion x px py = true ↔ (px, py) ∈ S := by
  rw [← h.exists_has]
  unfold XPointInRegion
  split
  · next hnil =>
      rw [List.length_eq_zero_iff.mp hnil]
      exact iff_of_false Bool.false_ne_true (by simp)
  next hne =>
  have hS := h.nonempty_of fun hnil => hne (by rw [hnil]; rfl)
  split
  · next hout =>
      refine iff_of_false Bool.false_ne_true fun hin => ?_
      have hhas := (h.extents hS).inside _ ((h.exists_has _).mp hin)
      rw [inBox_iff.mpr hhas] at hout
      exact Bool.false_ne_true hout
  · simp only [List.any_eq_true, inBox_iff]

/-- The coordinate is a `short`. -/
def IsShort (x : ℤ) : Prop := -2 ^ 15 ≤ x ∧ x < 2 ^ 15

instance (x : ℤ) : Decidable (IsShort x) := inferInstanceAs (Decidable (_ ∧ _))

theorem short_eq {x : ℤ} (h : IsShort x) : short x = x := Int.bmod_eq_of_le h.1 h.2

/-- The bounds of a set that is moved. -/
def Box.shift (dx dy : ℤ) (b : Box) : Box := ⟨b.x1 + dx, b.x2 + dx, b.y1 + dy, b.y2 + dy⟩

structure Box.IsShort (b : Box) : Prop where
  x1 : Xregion.IsShort b.x1
  x2 : Xregion.IsShort b.x2
  y1 : Xregion.IsShort b.y1
  y2 : Xregion.IsShort b.y2

theorem Box.offset_eq {b : Box} {dx dy : ℤ} (h : (b.shift dx dy).IsShort) :
    b.offset dx dy = b.shift dx dy := by
  obtain ⟨h1, h2, h3, h4⟩ := h
  have hx1 := short_eq h1
  have hx2 := short_eq h2
  have hy1 := short_eq h3
  have hy2 := short_eq h4
  unfold Box.shift at hx1 hx2 hy1 hy2
  unfold Box.offset Box.shift
  rw [hx1, hx2, hy1, hy2]

theorem boxesOf_shift (bs : List Band) (dx dy : ℤ) :
    boxesOf (bs.map (Band.shift dx dy)) = (boxesOf bs).map (Box.shift dx dy) := by
  unfold boxesOf
  rw [List.flatMap_map, List.map_flatMap]
  refine congrArg₂ List.flatMap (funext fun b => ?_) rfl
  unfold boxes
  rw [List.map_map]
  exact List.map_map

theorem toBands_translate (S : Region) (dx dy : ℤ) :
    (S.translate (dx, dy)).toBands = S.toBands.map (Band.shift dx dy) := by
  refine (eq_toBands ((banded_toBands S).shift dx dy) fun p => ?_).symm
  rw [rowAt_shift, onRow_shift, rowAt_toBands, onRow_row, Region.mem_translate]
  rfl

theorem Tight.translate {e : Box} (h : Tight S e) (dx dy : ℤ) :
    Tight (S.translate (dx, dy)) (e.shift dx dy) := by
  -- a bound is met by the moved point
  have hmoved : ∀ {f : Point → ℤ} {a d : ℤ}, (∀ p : Point, f (p + (dx, dy)) = f p + d) →
      (∃ p ∈ S, f p = a) → ∃ p ∈ S.translate (dx, dy), f p = a + d := by
    rintro f a d hf ⟨p, hp, rfl⟩
    refine ⟨p + (dx, dy), Region.mem_translate.mpr ?_, hf p⟩
    rw [add_sub_cancel_right]
    exact hp
  refine ⟨fun p hp => ?_, hmoved (fun _ => rfl) h.left, ?_, hmoved (fun _ => rfl) h.top, ?_⟩
  · obtain ⟨⟨h1, h2⟩, h3, h4⟩ := h.inside _ (Region.mem_translate.mp hp)
    exact ⟨⟨Int.add_le_of_le_sub_right h1, Int.lt_add_of_sub_right_lt h2⟩,
      Int.add_le_of_le_sub_right h3, Int.lt_add_of_sub_right_lt h4⟩
  · exact hmoved (f := fun p => p.1 + 1) (fun p => add_right_comm p.1 dx 1) h.right
  · exact hmoved (f := fun p => p.2 + 1) (fun p => add_right_comm p.2 dy 1) h.bottom

/-- A box of a set lies within its bounds. -/
theorem Tight.within {e r : Box} (h : Tight S e) (hr : r ∈ boxesOf S.toBands) :
    (e.x1 ≤ r.x1 ∧ r.x2 ≤ e.x2) ∧ e.y1 ≤ r.y1 ∧ r.y2 ≤ e.y2 := by
  obtain ⟨hfirst, hlast⟩ := corners_mem (exists_has_toBands S) hr
    (proper_of_mem_boxesOf (banded_toBands S) hr)
  obtain ⟨⟨h1, -⟩, h3, -⟩ := h.inside _ hfirst
  obtain ⟨⟨-, h2⟩, -, h4⟩ := h.inside _ hlast
  exact ⟨⟨h1, Int.le_of_sub_one_lt h2⟩, h3, Int.le_of_sub_one_lt h4⟩

theorem IsShort.between {a b c : ℤ} (ha : IsShort a) (hc : IsShort c) (hab : a ≤ b) (hbc : b ≤ c) :
    IsShort b := ⟨ha.1.trans hab, hbc.trans_lt hc.2⟩

/-- A region is moved, if it stays where its coordinates are. -/
theorem Represents.offset (h : Represents x S) {dx dy : ℤ}
    (hshort : S.Nonempty → (x.extents.shift dx dy).IsShort) :
    Represents (XOffsetRegion x dx dy) (S.translate (dx, dy)) := by
  have hboxes : ∀ r ∈ x.rects, r.offset dx dy = r.shift dx dy := by
    intro r hr
    have hS := h.nonempty_of (List.ne_nil_of_mem hr)
    obtain ⟨hx1, hx2, hy1, hy2⟩ := hshort hS
    rw [h.rects] at hr
    obtain ⟨hwide, hhigh⟩ := proper_of_mem_boxesOf (banded_toBands S) hr
    obtain ⟨⟨h1, h2⟩, h3, h4⟩ := (h.extents hS).within hr
    refine Box.offset_eq ⟨hx1.between hx2 ?_ ?_, hx1.between hx2 ?_ ?_, hy1.between hy2 ?_ ?_,
      hy1.between hy2 ?_ ?_⟩
    all_goals
      unfold Box.shift
      dsimp only
      omega
  have hrects : (XOffsetRegion x dx dy).rects = boxesOf (S.translate (dx, dy)).toBands := by
    rw [toBands_translate, boxesOf_shift, ← h.rects]
    exact List.map_congr_left hboxes
  refine ⟨hrects, fun hne => ?_, h.nonempty, ?_⟩
  · have hS : S.Nonempty := by
      obtain ⟨p, hp⟩ := hne
      exact ⟨_, Region.mem_translate.mp hp⟩
    have hextents : (XOffsetRegion x dx dy).extents = x.extents.shift dx dy :=
      Box.offset_eq (hshort hS)
    rw [hextents]
    exact (h.extents hS).translate dx dy
  · exact (List.length_map _).le.trans h.fits

end

end KasmVNC.Rfb.Xregion
