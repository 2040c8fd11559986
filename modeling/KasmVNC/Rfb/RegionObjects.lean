import KasmVNC.Rfb.RegionListing

/-!
# Region objects

`rfb::Region` works on a region of the library through pointers. A program that calls its member
functions on any objects computes the sets that the calls stand for, as long as every coordinate is
a `short`, the boxes for `setExtentsAndOrderedRects` are those that a region of their points has,
with its extents, and no object is intersected with itself or subtracted from itself in place.
-/

namespace KasmVNC.Rfb.Xregion

open KasmVNC.Lib

variable {ι : Type*}

/-- The coordinates of a rectangle as `short`s. -/
def Box.ofRect (r : Rect) : Box := ⟨short r.tl.1, short r.br.1, short r.tl.2, short r.br.2⟩

/-- `_RectRegion` -/
def rectRegion (r : Rect) : XRegion :=
  ⟨1, if r.isEmpty then [] else [Box.ofRect r], Box.ofRect r⟩

def clear (x : XRegion) : XRegion := { x with rects := [], extents := ⟨0, 0, 0, 0⟩ }

/-- There must be space for the one box. -/
def reset (r : Rect) (x : XRegion) : Option XRegion :=
  if r.isEmpty then some (clear x)
  else if x.size < 1 then none
  else some { x with rects := [Box.ofRect r], extents := Box.ofRect r }

def setExtentsAndOrderedRects (extents : Box) (rects : List Box) (x : XRegion) : XRegion :=
  ⟨if x.size < rects.length then rects.length else x.size, rects, extents⟩

/-- The objects, and one that is not among them. -/
def withTemp (x : XRegion) (m : ι → XRegion) : Option ι → XRegion
  | none => x
  | some i => m i

section

variable [DecidableEq ι]

/-- `operator=`. The object is cleared first, also when it is the one that is assigned. -/
def assign (a : ι) (r : Option ι) (m : Option ι → XRegion) : Option (Option ι → XRegion) :=
  XUnionRegion (some a) r (some a) (Function.update m (some a) (clear (m (some a))))

def addRect (a : ι) (r : Rect) (m : ι → XRegion) : Option (ι → XRegion) :=
  (XUnionRegion (some a) none (some a) (withTemp (rectRegion r) m)).map fun m' i => m' (some i)

def setOrderedRects (a : ι) (rects : List Rect) (m : ι → XRegion) : Option (ι → XRegion) :=
  rects.foldlM (fun m r => addRect a r m) (Function.update m a (clear (m a)))

/-- The function makes a new region, which is assigned to the object. -/
def assignNew (a : ι)
    (op : Option ι → (Option ι → XRegion) → Option (Option ι → XRegion)) (m : ι → XRegion) :
    Option (ι → XRegion) :=
  (op none (withTemp XCreateRegion m) >>= assign a none).map fun m' i => m' (some i)

/-- The calls that change an object. -/
inductive Call (ι : Type*)
  | clear (a : ι)
  | reset (a : ι) (r : Rect)
  | assign (a r : ι)
  | translate (a : ι) (delta : Point)
  | setOrderedRects (a : ι) (rects : List Rect)
  | setExtentsAndOrderedRects (a : ι) (extents : Box) (rects : List Box)
  | assign_intersect (a r : ι)
  | assign_union (a r : ι)
  | assign_subtract (a r : ι)
  /-- `a = b.intersect(r)` -/
  | intersect (a b r : ι)
  | union_ (a b r : ι)
  | subtract (a b r : ι)

namespace Call

def run (m : ι → XRegion) : Call ι → Option (ι → XRegion)
  | clear a => some (Function.update m a (Xregion.clear (m a)))
  | reset a r => (Xregion.reset r (m a)).map (Function.update m a)
  | assign a r =>
    (Xregion.assign a (some r) (withTemp XCreateRegion m)).map fun m' i => m' (some i)
  | translate a delta => some (Function.update m a (XOffsetRegion (m a) delta.1 delta.2))
  | setOrderedRects a rects => Xregion.setOrderedRects a rects m
  | setExtentsAndOrderedRects a extents rects =>
    some (Function.update m a (Xregion.setExtentsAndOrderedRects extents rects (m a)))
  | assign_intersect a r => XIntersectRegion a r a m
  | assign_union a r => XUnionRegion a r a m
  | assign_subtract a r => XSubtractRegion a r a m
  | intersect a b r => assignNew a (XIntersectRegion (some b) (some r)) m
  | union_ a b r => assignNew a (XUnionRegion (some b) (some r)) m
  | subtract a b r => assignNew a (XSubtractRegion (some b) (some r)) m

end Call

end

/-! ## What the calls stand for -/

/-- The points of rectangles. -/
def cover (rects : List Rect) : Region := rects.foldl (fun S r => S ∪ Region.ofRect r) ∅

section

variable [DecidableEq ι]

/-- The coordinates are those of `short`s, unless the rectangle is empty. -/
def FitsRect (r : Rect) : Prop :=
  r.isEmpty = false → IsShort r.tl.1 ∧ IsShort r.br.1 ∧ IsShort r.tl.2 ∧ IsShort r.br.2

namespace Call

/-- The set of each object after a call. -/
def effect (S : ι → Region) : Call ι → ι → Region
  | clear a => Function.update S a ∅
  | reset a r => Function.update S a (Region.ofRect r)
  | assign a r => Function.update S a (if a = r then ∅ else S r)
  | translate a delta => Function.update S a ((S a).translate delta)
  | setOrderedRects a rects => Function.update S a (cover rects)
  | setExtentsAndOrderedRects a _ rects => Function.update S a (cover (rects.map Box.rect))
  | assign_intersect a r => Function.update S a (S a ∩ S r)
  | assign_union a r => Function.update S a (S a ∪ S r)
  | assign_subtract a r => Function.update S a (S a \ S r)
  | intersect a b r => Function.update S a (S b ∩ S r)
  | union_ a b r => Function.update S a (S b ∪ S r)
  | subtract a b r => Function.update S a (S b \ S r)

/-- What the callers have to see to. -/
def Fits (S : ι → Region) : Call ι → Prop
  | reset _ r => FitsRect r
  | translate a delta => ∀ p ∈ S a, (IsShort (p.1 + delta.1) ∧ IsShort (p.1 + delta.1 + 1)) ∧
      IsShort (p.2 + delta.2) ∧ IsShort (p.2 + delta.2 + 1)
  | setOrderedRects _ rects => ∀ r ∈ rects, FitsRect r
  | setExtentsAndOrderedRects _ extents rects =>
    let covered := cover (rects.map Box.rect)
    rects = boxesOf covered.toBands ∧ (covered.Nonempty → Tight covered extents)
  | assign_intersect a r => a ≠ r
  | assign_subtract a r => a ≠ r
  | _ => True

end Call

end

/-! ## One call -/

section

variable {m : ι → XRegion} {S : ι → Region}

theorem Stores.temp (h : Stores m S) {x : XRegion} {T : Region} (hx : Represents x T) :
    Stores (withTemp x m) (fun o => o.elim T S) := by
  intro o
  cases o with
  | none => exact hx
  | some i => exact h i

variable [DecidableEq ι]

theorem Stores.objects {m' : Option ι → XRegion} {S' : Option ι → Region} {a : ι} {T : Region}
    (h : Stores m' (Function.update S' (some a) T)) :
    Stores (fun i => m' (some i)) (Function.update (fun i => S' (some i)) a T) := by
  have hcomp : Function.update S' (some a) T ∘ some = Function.update (S' ∘ some) a T :=
    Function.update_comp_eq_of_injective S' (Option.some_injective ι) a T
  intro i
  have hi : Function.update S' (some a) T (some i) = Function.update (S' ∘ some) a T i :=
    congrFun hcomp i
  exact hi ▸ h (some i)

theorem Represents.clear {x : XRegion} {T : Region} (h : Represents x T) :
    Represents (Xregion.clear x) ∅ := represents_empty h.nonempty

theorem isEmpty_iff {r : Rect} : r.isEmpty = true ↔ Region.ofRect r = ∅ := by
  unfold Rect.isEmpty
  rw [Bool.or_eq_true, decide_eq_true_eq, decide_eq_true_eq]
  constructor
  · intro h
    refine Finset.eq_empty_of_forall_notMem fun p hp => ?_
    rw [Region.mem_ofRect] at hp
    omega
  · intro h
    by_contra hne
    have hmem : r.tl ∈ Region.ofRect r := by
      rw [Region.mem_ofRect]
      omega
    rw [h] at hmem
    exact Finset.notMem_empty _ hmem

theorem isEmpty_eq_false_iff {r : Rect} :
    r.isEmpty = false ↔ r.tl.1 < r.br.1 ∧ r.tl.2 < r.br.2 := by
  unfold Rect.isEmpty
  rw [Bool.or_eq_false_iff, decide_eq_false_iff_not, decide_eq_false_iff_not, not_le, not_le]

theorem Box.ofRect_eq {r : Rect} (h : FitsRect r) (hne : r.isEmpty = false) :
    Box.ofRect r = ⟨r.tl.1, r.br.1, r.tl.2, r.br.2⟩ := by
  obtain ⟨h1, h2, h3, h4⟩ := h hne
  unfold Box.ofRect
  rw [short_eq h1, short_eq h2, short_eq h3, short_eq h4]

/-- One box represents its points. -/
theorem represents_box {b : Box} (hb : b.Proper) {size : ℕ} (hsize : 1 ≤ size) :
    Represents ⟨size, [b], b⟩ (Region.ofRect b.rect) := by
  have hproper : Band.Proper ⟨b.y1, b.y2, [b.span]⟩ :=
    ⟨hb.high, List.cons_ne_nil _ _, spaced_singleton hb.wide⟩
  have hbanded : Banded [⟨b.y1, b.y2, [b.span]⟩] :=
    banded_cons.mpr ⟨hproper, fun _ hc => absurd hc List.not_mem_nil, banded_nil⟩
  have hhas : ∀ p, (∃ r ∈ [b], r.Has p) ↔ p ∈ Region.ofRect b.rect := by
    intro p
    rw [Region.mem_ofRect]
    simp only [List.mem_singleton, exists_eq_left]
    rfl
  have hboxes : [b] = boxesOf [⟨b.y1, b.y2, [b.span]⟩] := rfl
  have hbands := eq_toBands hbanded fun p => (exists_has_iff hbanded p).symm.trans (hhas p)
  refine ⟨hboxes.trans (congrArg boxesOf hbands), fun _ => ?_, hsize, hsize⟩
  refine tight_of_boxes hhas (List.forall_mem_singleton.mpr hb)
    (List.forall_mem_singleton.mpr ⟨⟨le_rfl, le_rfl⟩, le_rfl, le_rfl⟩) ?_ ?_ ?_ ?_
  all_goals exact ⟨b, List.mem_singleton_self b, rfl⟩

theorem proper_ofRect {r : Rect} (h : FitsRect r) (hne : r.isEmpty = false) :
    (Box.ofRect r).Proper ∧ (Box.ofRect r).rect = r := by
  obtain ⟨hwide, hhigh⟩ := isEmpty_eq_false_iff.mp hne
  rw [Box.ofRect_eq h hne]
  exact ⟨⟨hwide, hhigh⟩, rfl⟩

theorem represents_rectRegion {r : Rect} (h : FitsRect r) :
    Represents (rectRegion r) (Region.ofRect r) := by
  unfold rectRegion
  split
  · next hempty =>
      rw [isEmpty_iff.mp hempty]
      exact represents_empty le_rfl
  · next hne =>
      obtain ⟨hproper, hrect⟩ := proper_ofRect h (Bool.eq_false_iff.mpr hne)
      have hbox := represents_box hproper le_rfl
      rw [hrect] at hbox
      exact hbox

theorem Represents.reset {x : XRegion} {T : Region} (h : Represents x T) {r : Rect}
    (hr : FitsRect r) : ∃ x', Xregion.reset r x = some x' ∧ Represents x' (Region.ofRect r) := by
  unfold Xregion.reset
  split
  · next hempty =>
      rw [isEmpty_iff.mp hempty]
      exact ⟨_, rfl, h.clear⟩
  · next hne =>
      obtain ⟨hproper, hrect⟩ := proper_ofRect hr (Bool.eq_false_iff.mpr hne)
      have hbox := represents_box hproper h.nonempty
      rw [hrect] at hbox
      rw [if_neg (not_lt.mpr h.nonempty)]
      exact ⟨_, rfl, hbox⟩

theorem Stores.addRect (h : Stores m S) (a : ι) {r : Rect} (hr : FitsRect r) :
    ∃ m', Xregion.addRect a r m = some m' ∧
      Stores m' (Function.update S a (S a ∪ Region.ofRect r)) := by
  obtain ⟨m', hop, hm'⟩ := (h.temp (represents_rectRegion hr)).union (some a) none (some a)
  unfold Xregion.addRect
  rw [hop, Option.map_some]
  exact ⟨_, rfl, hm'.objects⟩

theorem Stores.addRects {a : ι} {rects : List Rect} (hrects : ∀ r ∈ rects, FitsRect r) {T : Region}
    (h : Stores m (Function.update S a T)) :
    ∃ m', rects.foldlM (fun m r => Xregion.addRect a r m) m = some m' ∧
      Stores m' (Function.update S a (rects.foldl (fun S r => S ∪ Region.ofRect r) T)) := by
  induction rects generalizing m T with
  | nil => exact ⟨m, rfl, h⟩
  | cons r rects ih =>
    obtain ⟨hr, hrects⟩ := List.forall_mem_cons.mp hrects
    obtain ⟨m', hop, hm'⟩ := h.addRect a hr
    rw [Function.update_self, Function.update_idem] at hm'
    rw [List.foldlM_cons, hop]
    exact ih hrects hm'

theorem Stores.setOrderedRects (h : Stores m S) (a : ι) {rects : List Rect}
    (hrects : ∀ r ∈ rects, FitsRect r) : ∃ m', Xregion.setOrderedRects a rects m = some m' ∧
      Stores m' (Function.update S a (cover rects)) :=
  Stores.addRects hrects (h.set (h a).clear a)

/-- An object is assigned a set that is not its own. -/
theorem Stores.assign {m : Option ι → XRegion} {S : Option ι → Region} (h : Stores m S) (a : ι)
    (r : Option ι) : ∃ m', Xregion.assign a r m = some m' ∧
      Stores m' (Function.update S (some a) (if some a = r then ∅ else S r)) := by
  have hcleared := h.set (h (some a)).clear (some a)
  obtain ⟨m', hop, hm'⟩ := hcleared.union (some a) r (some a)
  refine ⟨m', hop, ?_⟩
  rw [Function.update_self, Finset.empty_union, Function.update_idem] at hm'
  by_cases hr : some a = r
  · subst hr
    rw [Function.update_self] at hm'
    rw [if_pos rfl]
    exact hm'
  · rw [Function.update_of_ne (Ne.symm hr)] at hm'
    rw [if_neg hr]
    exact hm'

/-- What a new region represents is assigned to the object. -/
theorem stores_assignNew (a : ι) {T : Region}
    {op : Option ι → (Option ι → XRegion) → Option (Option ι → XRegion)}
    (hop : ∃ m', op none (withTemp XCreateRegion m) = some m' ∧
      Stores m' (Function.update (fun o => o.elim ∅ S) none T)) :
    ∃ m', Xregion.assignNew a op m = some m' ∧ Stores m' (Function.update S a T) := by
  obtain ⟨m1, hop, hm1⟩ := hop
  obtain ⟨m2, hassign, hm2⟩ := hm1.assign a none
  unfold Xregion.assignNew
  rw [hop, Option.bind_eq_bind, Option.bind_some, hassign, Option.map_some]
  rw [if_neg (Option.some_ne_none a), Function.update_self] at hm2
  exact ⟨_, rfl, hm2.objects⟩

/-- The bounds of a set are moved as its points are. -/
theorem Tight.isShort_shift {T : Region} {e : Box} (h : Tight T e) {delta : Point}
    (hshort : ∀ p ∈ T, (IsShort (p.1 + delta.1) ∧ IsShort (p.1 + delta.1 + 1)) ∧
      IsShort (p.2 + delta.2) ∧ IsShort (p.2 + delta.2 + 1)) :
    (e.shift delta.1 delta.2).IsShort := by
  obtain ⟨-, ⟨p1, hp1, hx1⟩, ⟨p2, hp2, hx2⟩, ⟨p3, hp3, hy1⟩, p4, hp4, hy2⟩ := h
  have h1 := (hshort p1 hp1).1.1
  have h2 := (hshort p2 hp2).1.2
  have h3 := (hshort p3 hp3).2.1
  have h4 := (hshort p4 hp4).2.2
  rw [hx1] at h1
  rw [add_right_comm, hx2] at h2
  rw [hy1] at h3
  rw [add_right_comm, hy2] at h4
  exact ⟨h1, h2, h3, h4⟩

/-- **A call leaves every object with the set that it stands for.** -/
theorem Stores.call (h : Stores m S) {c : Call ι} (hfits : c.Fits S) :
    ∃ m', c.run m = some m' ∧ Stores m' (c.effect S) := by
  have hnew := h.temp Represents.create
  cases c with
  | clear a => exact ⟨_, rfl, h.set (h a).clear a⟩
  | reset a r =>
    obtain ⟨x', hreset, hx'⟩ := (h a).reset hfits
    exact ⟨_, congrArg (Option.map _) hreset, h.set hx' a⟩
  | assign a r =>
    obtain ⟨m', hop, hm'⟩ := hnew.assign a (some r)
    refine ⟨_, congrArg (Option.map _) hop, ?_⟩
    have hobjects := hm'.objects
    simp only [Option.some_inj] at hobjects
    exact hobjects
  | translate a delta =>
    refine ⟨_, rfl, h.set ((h a).offset fun hne => ?_) a⟩
    exact ((h a).extents hne).isShort_shift hfits
  | setOrderedRects a rects => exact h.setOrderedRects a hfits
  | setExtentsAndOrderedRects a extents rects =>
    obtain ⟨hrects, hextents⟩ := hfits
    have hsize := (h a).nonempty
    have hset : Represents (Xregion.setExtentsAndOrderedRects extents rects (m a))
        (cover (rects.map Box.rect)) := by
      refine ⟨hrects, hextents, ?_, ?_⟩
      all_goals
        unfold Xregion.setExtentsAndOrderedRects
        dsimp only
        split_ifs <;> omega
    exact ⟨_, rfl, h.set hset a⟩
  | assign_intersect a r => exact h.intersect fun hsame => hfits hsame.2.symm
  | assign_union a r => exact h.union a r a
  | assign_subtract a r => exact h.subtract fun hsame => hfits hsame.2.symm
  | intersect a b r => exact stores_assignNew a (hnew.intersect fun hsame => absurd hsame.1 nofun)
  | union_ a b r => exact stores_assignNew a (hnew.union _ _ _)
  | subtract a b r => exact stores_assignNew a (hnew.subtract fun hsame => absurd hsame.1 nofun)

/-! ## Programs -/

/-- The callers see to what each of the calls needs. -/
def Fitting : (ι → Region) → List (Call ι) → Prop
  | _, [] => True
  | S, c :: calls => c.Fits S ∧ Fitting (c.effect S) calls

theorem Stores.calls (h : Stores m S) {calls : List (Call ι)} (hfits : Fitting S calls) :
    ∃ m', calls.foldlM Call.run m = some m' ∧ Stores m' (calls.foldl Call.effect S) := by
  induction calls generalizing m S with
  | nil => exact ⟨m, rfl, h⟩
  | cons c calls ih =>
    obtain ⟨m', hrun, hm'⟩ := h.call hfits.1
    rw [List.foldlM_cons, hrun]
    exact ih hm' hfits.2

end

/-! ## What is read -/

theorem untopD_min_eq {s : Finset ℤ} {a : ℤ} (ha : a ∈ s) (hle : ∀ i ∈ s, a ≤ i) :
    s.min.untopD 0 = a := by
  obtain ⟨m, hm⟩ := Finset.min_of_mem ha
  have hmem := hle m (Finset.mem_of_min hm)
  have hmin := Region.untopD_min_le ha
  rw [hm] at hmin ⊢
  exact le_antisymm hmin hmem

theorem unbotD_max_eq {s : Finset ℤ} {a : ℤ} (ha : a ∈ s) (hle : ∀ i ∈ s, i ≤ a) :
    s.max.unbotD 0 = a := by
  obtain ⟨m, hm⟩ := Finset.max_of_mem ha
  have hmem := hle m (Finset.mem_of_max hm)
  have hmax := Region.le_unbotD_max ha
  rw [hm] at hmax ⊢
  exact le_antisymm hmem hmax

/-- The extents are the bounding rectangle. -/
theorem Tight.rect_eq {T : Region} {e : Box} (h : Tight T e) : e.rect = T.getBoundingRect := by
  obtain ⟨hin, ⟨p1, hp1, hx1⟩, ⟨p2, hp2, hx2⟩, ⟨p3, hp3, hy1⟩, p4, hp4, hy2⟩ := h
  have hfst : ∀ i ∈ T.image Prod.fst, e.x1 ≤ i ∧ i < e.x2 := by
    intro i hi
    obtain ⟨p, hp, rfl⟩ := Finset.mem_image.mp hi
    exact (hin p hp).1
  have hsnd : ∀ i ∈ T.image Prod.snd, e.y1 ≤ i ∧ i < e.y2 := by
    intro i hi
    obtain ⟨p, hp, rfl⟩ := Finset.mem_image.mp hi
    exact (hin p hp).2
  have hleft : (T.image Prod.fst).min.untopD 0 = e.x1 :=
    untopD_min_eq (hx1 ▸ Finset.mem_image_of_mem _ hp1) fun i hi => (hfst i hi).1
  have htop : (T.image Prod.snd).min.untopD 0 = e.y1 :=
    untopD_min_eq (hy1 ▸ Finset.mem_image_of_mem _ hp3) fun i hi => (hsnd i hi).1
  have hright : (T.image Prod.fst).max.unbotD 0 = p2.1 :=
    unbotD_max_eq (Finset.mem_image_of_mem _ hp2) fun i hi =>
      Int.lt_add_one_iff.mp (hx2.symm ▸ (hfst i hi).2)
  have hbottom : (T.image Prod.snd).max.unbotD 0 = p4.2 :=
    unbotD_max_eq (Finset.mem_image_of_mem _ hp4) fun i hi =>
      Int.lt_add_one_iff.mp (hy2.symm ▸ (hsnd i hi).2)
  unfold Region.getBoundingRect
  dsimp only
  rw [if_neg (Finset.ne_empty_of_mem hp1), hleft, htop, hright, hbottom, hx2, hy2]
  rfl

theorem Represents.numRects {x : XRegion} {T : Region} (h : Represents x T) :
    x.rects.length = T.numRects := by
  rw [h.rects]
  unfold boxesOf Region.numRects
  rw [List.length_flatMap]
  simp only [length_boxes]

/-- **Programs of regions compute sets.** Whichever calls are made on objects that begin empty, no
array is written behind, and what the objects answer are the answers of the sets. -/
theorem calls_correct [DecidableEq ι] {calls : List (Call ι)} (hfits : Fitting (fun _ => ∅) calls) :
    ∃ m, calls.foldlM Call.run (fun _ => XCreateRegion) = some m ∧
      let S := calls.foldl Call.effect fun _ => ∅
      ∀ i, (∀ left2right topdown,
          get_rects (m i) left2right topdown = (S i).getRects left2right topdown) ∧
        (m i).rects.length = (S i).numRects ∧
        (∀ x y, XPointInRegion (m i) x y = true ↔ (x, y) ∈ S i) ∧
        (∀ j, XEqualRegion (m i) (m j) = true ↔ S i = S j) ∧
        ((S i).Nonempty → (m i).extents.rect = (S i).getBoundingRect) := by
  obtain ⟨m, hrun, hm⟩ := Stores.calls (fun _ => Represents.create) hfits
  refine ⟨m, hrun, fun i => ⟨(hm i).get_rects, (hm i).numRects, (hm i).pointIn, fun j => ?_, ?_⟩⟩
  · exact (hm i).equal (hm j)
  · exact fun hne => ((hm i).extents hne).rect_eq

/-- A square is moved and united with where it was, and a line is cut out. -/
theorem calls_correct_moved : ∃ m : Bool → XRegion,
    [Call.reset true ⟨(0, 0), (2, 2)⟩, .assign false true, .translate false (1, 1),
      .assign_union true false, .reset false ⟨(0, 1), (9, 2)⟩, .subtract false true false].foldlM
        Call.run (fun _ => XCreateRegion) = some m ∧
      XPointInRegion (m false) 1 1 = false ∧ XPointInRegion (m false) 2 2 = true ∧
        XEqualRegion (m true) (m false) = false := by
  have hfits : Fitting (fun _ : Bool => ∅)
      [Call.reset true ⟨(0, 0), (2, 2)⟩, .assign false true, .translate false (1, 1),
        .assign_union true false, .reset false ⟨(0, 1), (9, 2)⟩, .subtract false true false] := by
    refine ⟨fun _ => by decide, trivial, fun p hp => ?_, trivial, fun _ => by decide, trivial,
      trivial⟩
    have hp : p ∈ Region.ofRect ⟨(0, 0), (2, 2)⟩ := hp
    rw [Region.mem_ofRect] at hp
    unfold IsShort
    dsimp only at hp ⊢
    omega
  obtain ⟨m, hrun, hm⟩ := calls_correct hfits
  refine ⟨m, hrun, ?_, ?_, ?_⟩
  · exact Bool.eq_false_iff.mpr (mt ((hm false).2.2.1 1 1).mp (by decide))
  · exact ((hm false).2.2.1 2 2).mpr (by decide)
  · exact Bool.eq_false_iff.mpr (mt ((hm true).2.2.2.1 false).mp (by decide))

/-- **An object that is not empty is left with a freed array if it is intersected with itself in
place, and has no room for a rectangle once it was subtracted from itself**: its new array has no
size. -/
theorem itself_in_place [DecidableEq ι] {calls : List (Call ι)}
    (hfits : Fitting (fun _ => ∅) calls) {a : ι}
    (hne : (calls.foldl Call.effect (fun _ => ∅) a).Nonempty) {r : Rect}
    (hr : r.isEmpty = false) :
    (calls ++ [Call.assign_intersect a a]).foldlM Call.run (fun _ => XCreateRegion) = none ∧
      (calls ++ [Call.assign_subtract a a, Call.reset a r]).foldlM Call.run
        (fun _ => XCreateRegion) = none := by
  obtain ⟨m, hrun, hm⟩ := Stores.calls (fun _ => Represents.create) hfits
  have hintersect : Call.run m (Call.assign_intersect a a) = none := hm.intersect_itself hne
  have hsubtract : Call.run m (Call.assign_subtract a a) = _ := hm.subtract_itself hne
  have hreset : Xregion.reset r ⟨0, [], ⟨0, 0, 0, 0⟩⟩ = none := by
    unfold Xregion.reset
    rw [hr, if_neg Bool.false_ne_true, if_pos (Nat.lt_succ_self 0)]
  have hnext : Call.run (Function.update m a ⟨0, [], ⟨0, 0, 0, 0⟩⟩) (Call.reset a r) = none := by
    show (Xregion.reset r (Function.update m a _ a)).map _ = none
    rw [Function.update_self, hreset]
    rfl
  have hfirst : [Call.assign_intersect a a].foldlM Call.run m = none := by
    rw [List.foldlM_cons, hintersect]
    rfl
  have hsecond : [Call.assign_subtract a a, Call.reset a r].foldlM Call.run m = none := by
    rw [List.foldlM_cons, hsubtract, Option.bind_eq_bind, Option.bind_some, List.foldlM_cons, hnext]
    rfl
  rw [List.foldlM_append, List.foldlM_append, hrun]
  exact ⟨hfirst, hsecond⟩

theorem itself_in_place_square :
    [Call.reset true ⟨(0, 0), (2, 2)⟩, .assign_intersect true true].foldlM Call.run
      (fun _ : Bool => XCreateRegion) = none := by
  have hfits : Fitting (fun _ : Bool => ∅) [Call.reset true ⟨(0, 0), (2, 2)⟩] :=
    ⟨fun _ => by decide, trivial⟩
  have hne : ([Call.reset true ⟨(0, 0), (2, 2)⟩].foldl Call.effect
      (fun _ : Bool => ∅) true).Nonempty := ⟨(0, 0), by decide⟩
  exact (itself_in_place hfits hne (r := ⟨(0, 0), (1, 1)⟩) rfl).1

end KasmVNC.Rfb.Xregion
