import KasmVNC.Lib.BandSweep
import KasmVNC.Rfb.Xregion

/-!
# The band functions of the region library

Each function for one band adds boxes one after the other, and these are the row that the two rows
of the band are combined to. None of them writes behind the array.
-/

namespace KasmVNC.Rfb.Xregion

open KasmVNC.Lib

/-! ## Boxes of spans -/

def Box.span (b : Box) : ℤ × ℤ := (b.x1, b.x2)

def boxAt (y1 y2 : ℤ) (s : ℤ × ℤ) : Box := ⟨s.1, s.2, y1, y2⟩

/-- The boxes of a band. -/
def boxes (b : Band) : List Box := b.row.map (boxAt b.top b.bottom)

@[simp] theorem map_span_boxes (b : Band) : (boxes b).map Box.span = b.row := by
  unfold boxes
  rw [List.map_map]
  exact List.map_id _

@[simp] theorem length_boxes (b : Band) : (boxes b).length = b.row.length := List.length_map _

/-- The boxes of a region in bands. -/
def boxesOf (bs : List Band) : List Box := bs.flatMap boxes

@[simp] theorem boxesOf_nil : boxesOf [] = [] := rfl

@[simp] theorem boxesOf_cons (b : Band) (bs : List Band) :
    boxesOf (b :: bs) = boxes b ++ boxesOf bs := rfl

@[simp] theorem boxesOf_append (bs cs : List Band) :
    boxesOf (bs ++ cs) = boxesOf bs ++ boxesOf cs := List.flatMap_append

theorem boxesOf_concat (bs : List Band) (b : Band) :
    boxesOf (bs ++ [b]) = boxesOf bs ++ boxes b := by simp

/-! ## Boxes that are added -/

namespace NewReg

variable {newReg : NewReg}

theorem add_of_pos (h : 0 < newReg.size) : ∃ size broken, 0 < size ∧ ∀ x1 x2 y1 y2,
    newReg.add x1 x2 y1 y2 = ⟨size, newReg.rects ++ [⟨x1, x2, y1, y2⟩], broken⟩ := by
  have hsize : 0 < if newReg.rects.length + 1 ≥ newReg.size then 2 * newReg.size
      else newReg.size := by
    split_ifs <;> omega
  exact ⟨_, _, hsize, fun _ _ _ _ => if_neg hsize.ne'⟩

/-- Boxes are added one after the other. -/
def adds (newReg : NewReg) (bxs : List Box) : NewReg :=
  bxs.foldl (fun newReg b => newReg.add b.x1 b.x2 b.y1 b.y2) newReg

@[simp] theorem adds_nil (newReg : NewReg) : newReg.adds [] = newReg := rfl

@[simp] theorem adds_cons (newReg : NewReg) (b : Box) (bxs : List Box) :
    newReg.adds (b :: bxs) = (newReg.add b.x1 b.x2 b.y1 b.y2).adds bxs := rfl

theorem adds_append (newReg : NewReg) (bxs bxs' : List Box) :
    newReg.adds (bxs ++ bxs') = (newReg.adds bxs).adds bxs' := List.foldl_append

theorem rects_adds (h : 0 < newReg.size) (bxs : List Box) :
    (newReg.adds bxs).rects = newReg.rects ++ bxs := by
  induction bxs generalizing newReg with
  | nil => exact (List.append_nil _).symm
  | cons b bxs ih =>
    obtain ⟨size, broken, hsize, hadd⟩ := add_of_pos h
    rw [adds_cons, hadd, ih hsize]
    exact List.append_assoc _ _ _

/-- What boxes that are added, and boxes that are joined, keep. -/
structure Kept (P : NewReg → Prop) : Prop where
  pos : ∀ {newReg : NewReg}, P newReg → 0 < newReg.size
  add : ∀ {newReg : NewReg} (x1 x2 y1 y2 : ℤ), P newReg → P (newReg.add x1 x2 y1 y2)
  join : ∀ {newReg : NewReg} {rects : List Box}, rects ≠ [] →
    rects.length ≤ newReg.rects.length → P newReg → P { newReg with rects := rects }

theorem Kept.adds {P : NewReg → Prop} (hP : Kept P) (h : P newReg)
    (bxs : List Box) : P (newReg.adds bxs) := by
  induction bxs generalizing newReg with
  | nil => exact h
  | cons b bxs ih => exact ih (hP.add _ _ _ _ h)

/-- The boxes fit in the array, and nothing was written behind it. -/
structure Fits (newReg : NewReg) : Prop where
  kept : newReg.broken = false
  nonempty : 1 ≤ newReg.size
  length_le : newReg.rects.length ≤ newReg.size

theorem Fits.add (h : newReg.Fits) (x1 x2 y1 y2 : ℤ) :
    (newReg.add x1 x2 y1 y2).Fits := by
  obtain ⟨hkept, hsize, hlen⟩ := h
  have hgrown : newReg.rects.length + 1 ≤
      if newReg.rects.length + 1 ≥ newReg.size then 2 * newReg.size else newReg.size := by
    split_ifs <;> omega
  unfold NewReg.add
  dsimp only
  rw [if_neg (Nat.ne_of_gt (Nat.le_of_add_left_le hgrown))]
  refine ⟨?_, Nat.le_of_add_left_le hgrown, ?_⟩
  · show (newReg.broken || decide _) = false
    rw [hkept, Bool.false_or, decide_eq_false_iff_not]
    exact not_le.mpr hgrown
  · show (newReg.rects ++ [_]).length ≤ _
    rw [List.length_append]
    exact hgrown

theorem kept_fits : Kept Fits where
  pos h := h.nonempty
  add x1 x2 y1 y2 h := h.add x1 x2 y1 y2
  join _ hle h := ⟨h.kept, h.nonempty, hle.trans h.length_le⟩

/-- Nothing is added to an array of no size. -/
theorem adds_of_size_zero (bxs : List Box) (broken : Bool) :
    adds ⟨0, [], broken⟩ bxs = ⟨0, [], broken || bxs ≠ []⟩ := by
  induction bxs generalizing broken with
  | nil => simp
  | cons b bxs ih =>
    rw [adds_cons, show add ⟨0, [], broken⟩ b.x1 b.x2 b.y1 b.y2 = ⟨0, [], true⟩ from rfl, ih]
    simp

end NewReg

/-! ## One band -/

section

variable {y1 y2 : ℤ}

/-- The overlap of two boxes is added, if there is one. -/
theorem add_overlap (r1 r2 : Box) (newReg : NewReg) :
    (if max r1.x1 r2.x1 < min r1.x2 r2.x2 then
      newReg.add (max r1.x1 r2.x1) (min r1.x2 r2.x2) y1 y2 else newReg) = newReg.adds
      ((if max r1.span.1 r2.span.1 < min r1.span.2 r2.span.2 then
        [(max r1.span.1 r2.span.1, min r1.span.2 r2.span.2)] else []).map (boxAt y1 y2)) := by
  unfold Box.span
  dsimp only
  split <;> rfl

theorem miIntersectO_eq (r1 r2 : List Box) (newReg : NewReg) :
    miIntersectO y1 y2 r1 r2 newReg = newReg.adds
      ((interSpans (r1.map Box.span) (r2.map Box.span)).map (boxAt y1 y2)) := by
  fun_induction miIntersectO y1 y2 r1 r2 newReg with
  | case1 r1 r1s r2 r2s newReg x1 x2 newReg' hlt ih =>
    have hnew : newReg' = _ := add_overlap r1 r2 newReg
    rw [ih, hnew, ← NewReg.adds_append, ← List.map_append, List.map_cons, List.map_cons,
      interSpans, if_pos (show r1.span.2 < r2.span.2 from hlt)]
  | case2 r1 r1s r2 r2s newReg x1 x2 newReg' hge hlt ih =>
    have hnew : newReg' = _ := add_overlap r1 r2 newReg
    rw [ih, hnew, ← NewReg.adds_append, ← List.map_append, List.map_cons, List.map_cons,
      interSpans, if_neg (show ¬ r1.span.2 < r2.span.2 from hge),
      if_pos (show r2.span.2 < r1.span.2 from hlt)]
  | case3 r1 r1s r2 r2s newReg x1 x2 newReg' hge hge' ih =>
    have hnew : newReg' = _ := add_overlap r1 r2 newReg
    rw [ih, hnew, ← NewReg.adds_append, ← List.map_append, List.map_cons, List.map_cons,
      interSpans, if_neg (show ¬ r1.span.2 < r2.span.2 from hge),
      if_neg (show ¬ r2.span.2 < r1.span.2 from hge')]
  | case4 r1 r2 newReg hnil =>
    have hnone : interSpans (r1.map Box.span) (r2.map Box.span) = [] := by
      cases r1 with
      | nil => rw [List.map_nil, interSpans]
      | cons b r1 =>
        cases r2 with
        | nil => rw [List.map_nil, List.map_cons, interSpans]
        | cons c r2 => exact absurd rfl (hnil b r1 c r2 rfl)
    rw [hnone]
    rfl

theorem miUnionNonO_eq (r : List Box) (newReg : NewReg) :
    miUnionNonO y1 y2 r newReg = newReg.adds ((r.map Box.span).map (boxAt y1 y2)) := by
  unfold miUnionNonO NewReg.adds
  rw [List.foldl_map, List.foldl_map]
  rfl

/-! ### Union -/

theorem mergeRect_last {newReg : NewReg} (h : 0 < newReg.size) (x1 x2 : ℤ) (r : Box) :
    mergeRect y1 y2 (newReg.add x1 x2 y1 y2) r =
      if r.x1 ≤ x2 then newReg.add x1 (max x2 r.x2) y1 y2
      else (newReg.add x1 x2 y1 y2).add r.x1 r.x2 y1 y2 := by
  obtain ⟨size, broken, hsize, hadd⟩ := NewReg.add_of_pos h
  unfold mergeRect
  rw [hadd, hadd, List.getLast?_concat]
  by_cases htouch : r.x1 ≤ x2
  · rw [if_pos htouch]
    dsimp only
    rw [if_pos ⟨rfl, rfl, htouch⟩]
    split
    · next hlt =>
        rw [max_eq_right hlt.le]
        exact congrArg (fun rects => NewReg.mk size (rects ++ _) broken) List.dropLast_concat
    · next hge => rw [max_eq_left (not_lt.mp hge)]
  · rw [if_neg htouch]
    exact if_neg fun h => htouch h.2.2

theorem mergeRect_fresh {newReg : NewReg} (h : ∀ b ∈ newReg.rects, b.y1 ≠ y1) (r : Box) :
    mergeRect y1 y2 newReg r = newReg.add r.x1 r.x2 y1 y2 := by
  unfold mergeRect
  split
  · next last hlast =>
      exact if_neg fun hsame => h last (List.mem_of_getLast? hlast) hsame.1
  · rfl

/-- Boxes that come from left to right are joined with the last one, or added. -/
theorem foldl_mergeRect_last {newReg : NewReg} (h : 0 < newReg.size) (cur : ℤ × ℤ)
    (ss : List (ℤ × ℤ)) :
    (ss.map (boxAt y1 y2)).foldl (mergeRect y1 y2) (newReg.add cur.1 cur.2 y1 y2) =
      newReg.adds ((joinSpans cur ss).map (boxAt y1 y2)) := by
  induction ss generalizing cur newReg with
  | nil => rfl
  | cons s ss ih =>
    rw [List.map_cons, List.foldl_cons, mergeRect_last h]
    unfold joinSpans
    by_cases htouch : s.1 ≤ cur.2
    · rw [if_pos htouch, if_pos (show (boxAt y1 y2 s).x1 ≤ cur.2 from htouch)]
      exact ih h (cur.1, max cur.2 s.2)
    · rw [if_neg htouch, if_neg (show ¬ (boxAt y1 y2 s).x1 ≤ cur.2 from htouch)]
      obtain ⟨size, broken, hsize, hadd⟩ := NewReg.add_of_pos h
      exact ih (hadd cur.1 cur.2 y1 y2 ▸ hsize) s

theorem foldl_mergeRect_span (r : List Box) (newReg : NewReg) :
    r.foldl (mergeRect y1 y2) newReg =
      ((r.map Box.span).map (boxAt y1 y2)).foldl (mergeRect y1 y2) newReg := by
  rw [List.foldl_map, List.foldl_map]
  rfl

theorem miUnionO_eq_foldl (r1 r2 : List Box) (newReg : NewReg) :
    miUnionO y1 y2 r1 r2 newReg =
      ((mergeSpans (r1.map Box.span) (r2.map Box.span)).map (boxAt y1 y2)).foldl
        (mergeRect y1 y2) newReg := by
  fun_induction miUnionO y1 y2 r1 r2 newReg with
  | case1 r1 r1s r2 r2s newReg hlt ih =>
    rw [ih, List.map_cons, List.map_cons, mergeSpans,
      if_pos (show r1.span.1 < r2.span.1 from hlt)]
    rfl
  | case2 r1 r1s r2 r2s newReg hge ih =>
    rw [ih, List.map_cons, List.map_cons, mergeSpans,
      if_neg (show ¬ r1.span.1 < r2.span.1 from hge)]
    rfl
  | case3 r1 r1s newReg =>
    rw [foldl_mergeRect_span, List.map_cons, List.map_nil, mergeSpans]
  | case4 r2s newReg =>
    rw [foldl_mergeRect_span, List.map_nil, mergeSpans]

/-- The first box of a band is not joined with one of a band above. -/
theorem miUnionO_eq {newReg : NewReg} (hpos : 0 < newReg.size)
    (h : ∀ b ∈ newReg.rects, b.y1 ≠ y1) (r1 r2 : List Box) :
    miUnionO y1 y2 r1 r2 newReg = newReg.adds
      ((unionSpans (r1.map Box.span) (r2.map Box.span)).map (boxAt y1 y2)) := by
  rw [miUnionO_eq_foldl]
  unfold unionSpans
  split
  · next hnil => rw [hnil]; rfl
  · next s ss hcons =>
      rw [hcons, List.map_cons, List.foldl_cons, mergeRect_fresh h]
      exact foldl_mergeRect_last hpos s ss

/-! ### Difference -/

/-- The spans that are left, the first of them from the fence on. -/
def fenced (x1 : ℤ) : List (ℤ × ℤ) → List (ℤ × ℤ)
  | [] => []
  | a :: as => (x1, a.2) :: as

theorem fenced_nextFence (x1 : ℤ) (r1 : List Box) :
    fenced (nextFence x1 r1) (r1.map Box.span) = r1.map Box.span := by
  cases r1 <;> rfl

theorem fenced_cons (x1 : ℤ) (r : Box) (rs : List Box) :
    fenced x1 ((r :: rs).map Box.span) = (x1, r.x2) :: rs.map Box.span := rfl

theorem subtractFrom_eq {x1 : ℤ} {r1 r2 : List Box} (newReg : NewReg)
    (h : Lib.Spaced (fenced x1 (r1.map Box.span))) :
    subtractFrom y1 y2 x1 r1 r2 newReg = newReg.adds
      ((diffSpans (fenced x1 (r1.map Box.span)) (r2.map Box.span)).map (boxAt y1 y2)) := by
  fun_induction subtractFrom y1 y2 x1 r1 r2 newReg with
  | case1 x1 r1 r1s r2 r2s newReg hmissed ih =>
    rw [ih h, fenced_cons, List.map_cons, diffSpans, if_pos (show r2.span.2 ≤ x1 from hmissed)]
  | case2 x1 r1 r1s r2 r2s newReg hmissed hleft hcovered ih =>
    rw [fenced_cons] at h
    rw [fenced_nextFence] at ih
    rw [ih (spaced_cons.mp h).2.2, fenced_cons, List.map_cons, diffSpans,
      if_neg (show ¬ r2.span.2 ≤ x1 from hmissed), if_pos (show r2.span.1 ≤ x1 from hleft),
      if_pos (show r1.x2 ≤ r2.span.2 from hcovered)]
  | case3 x1 r1 r1s r2 r2s newReg hmissed hleft hcovered ih =>
    rw [fenced_cons] at h ih
    rw [ih (h.moved (not_le.mp hcovered)), fenced_cons, List.map_cons, diffSpans,
      if_neg (show ¬ r2.span.2 ≤ x1 from hmissed), if_pos (show r2.span.1 ≤ x1 from hleft),
      if_neg (show ¬ r1.x2 ≤ r2.span.2 from hcovered)]
    rfl
  | case4 x1 r1 r1s r2 r2s newReg hmissed hleft hmeets newReg' hcovered ih =>
    rw [fenced_cons] at h
    rw [fenced_nextFence] at ih
    rw [ih (spaced_cons.mp h).2.2, fenced_cons, List.map_cons, diffSpans,
      if_neg (show ¬ r2.span.2 ≤ x1 from hmissed), if_neg (show ¬ r2.span.1 ≤ x1 from hleft),
      if_pos (show r2.span.1 < r1.x2 from hmeets),
      if_pos (show r1.x2 ≤ r2.span.2 from hcovered)]
    rfl
  | case5 x1 r1 r1s r2 r2s newReg hmissed hleft hmeets newReg' hcovered ih =>
    rw [fenced_cons] at h ih
    rw [ih (h.moved (not_le.mp hcovered)), fenced_cons, List.map_cons, diffSpans,
      if_neg (show ¬ r2.span.2 ≤ x1 from hmissed), if_neg (show ¬ r2.span.1 ≤ x1 from hleft),
      if_pos (show r2.span.1 < r1.x2 from hmeets),
      if_neg (show ¬ r1.x2 ≤ r2.span.2 from hcovered)]
    rfl
  | case6 x1 r1 r1s r2 r2s newReg hmissed hleft hmeets newReg' ih =>
    rw [fenced_cons] at h
    rw [fenced_nextFence] at ih
    have hnew : newReg' = newReg.add x1 r1.x2 y1 y2 := if_pos (spaced_cons.mp h).1
    rw [ih (spaced_cons.mp h).2.2, hnew, fenced_cons, List.map_cons, diffSpans,
      if_neg (show ¬ r2.span.2 ≤ x1 from hmissed), if_neg (show ¬ r2.span.1 ≤ x1 from hleft),
      if_neg (show ¬ r2.span.1 < r1.x2 from hmeets)]
    rfl
  | case7 x1 r1 r1s newReg ih =>
    rw [fenced_cons] at h
    rw [fenced_nextFence] at ih
    rw [ih (spaced_cons.mp h).2.2, fenced_cons, List.map_nil, diffSpans]
    cases r1s with
    | nil => rw [List.map_nil, diffSpans]; rfl
    | cons r rs => rw [List.map_cons, diffSpans]; rfl
  | case8 => rw [List.map_nil, fenced, diffSpans]; rfl

theorem miSubtractO_eq {r1 : List Box} (h : Lib.Spaced (r1.map Box.span)) (r2 : List Box)
    (newReg : NewReg) :
    miSubtractO y1 y2 r1 r2 newReg = newReg.adds
      ((diffSpans (r1.map Box.span) (r2.map Box.span)).map (boxAt y1 y2)) := by
  have hfence := fenced_nextFence 0 r1
  unfold miSubtractO
  rw [subtractFrom_eq newReg (hfence.symm ▸ h), hfence]

/-! ## The functions of an operation -/

/-- The functions for one band combine its rows. -/
structure Implements (f : BandFuncs) (op : RowOp) : Prop where
  keeps : op.Keeps
  overlap : ∀ {y1 y2 : ℤ} {r1 r2 : List Box} {newReg : NewReg}, Lib.Spaced (r1.map Box.span) →
    0 < newReg.size → (∀ b ∈ newReg.rects, b.y1 ≠ y1) → f.overlapFunc y1 y2 r1 r2 newReg = newReg.adds
      ((op.overlap (r1.map Box.span) (r2.map Box.span)).map (boxAt y1 y2))
  first : ∀ (y1 y2 : ℤ) (r : List Box) (newReg : NewReg),
    callNonOverlap f.nonOverlap1Func y1 y2 r newReg =
      if op.first then newReg.adds ((r.map Box.span).map (boxAt y1 y2)) else newReg
  second : ∀ (y1 y2 : ℤ) (r : List Box) (newReg : NewReg),
    callNonOverlap f.nonOverlap2Func y1 y2 r newReg =
      if op.second then newReg.adds ((r.map Box.span).map (boxAt y1 y2)) else newReg

theorem implements_inter : Implements intersectFuncs RowOp.inter where
  keeps := RowOp.inter_keeps
  overlap _ _ _ := miIntersectO_eq _ _ _
  first _ _ _ _ := rfl
  second _ _ _ _ := rfl

theorem implements_union : Implements unionFuncs RowOp.union where
  keeps := RowOp.union_keeps
  overlap _ hpos hfresh := miUnionO_eq hpos hfresh _ _
  first _ _ r newReg := miUnionNonO_eq r newReg
  second _ _ r newReg := miUnionNonO_eq r newReg

theorem implements_diff : Implements subtractFuncs RowOp.diff where
  keeps := RowOp.diff_keeps
  overlap hrow _ _ := miSubtractO_eq hrow _ _
  first _ _ r newReg := miUnionNonO_eq r newReg
  second _ _ _ _ := rfl

end

end KasmVNC.Rfb.Xregion
