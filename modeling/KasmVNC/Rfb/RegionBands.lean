import KasmVNC.Rfb.RegionFuncs

/-!
# Bands of a region

`miCoalesce` joins the last band of a region with the one before as `addBand` does, and the loop of
`miRegionOp` is the pass over the bands of both regions.
-/

namespace KasmVNC.Rfb.Xregion

open KasmVNC.Lib RowOp NewReg

variable {b c n last : Band} {bs cs out : List Band} {rs : List Box} {ybot : ℤ}

/-! ## The first band -/

theorem y1_of_mem_boxes {r : Box} (h : r ∈ boxes b) : r.y1 = b.top := by
  obtain ⟨s, -, rfl⟩ := List.mem_map.mp h
  rfl

theorem exists_of_mem_boxesOf {r : Box} (h : r ∈ boxesOf bs) : ∃ b ∈ bs, r ∈ boxes b :=
  List.mem_flatMap.mp h

theorem boxes_ne_nil (h : b.row ≠ []) : boxes b ≠ [] := fun hnil => h (List.map_eq_nil_iff.mp hnil)

/-- The first box of a region lies in its first band. -/
theorem exists_first (hb : b.row ≠ []) (rs : List Box) :
    ∃ r rs', boxes b ++ rs = r :: rs' ∧ r.y1 = b.top ∧ r.y2 = b.bottom := by
  obtain ⟨s, row, hrow⟩ := List.exists_cons_of_ne_nil hb
  refine ⟨boxAt b.top b.bottom s, row.map (boxAt b.top b.bottom) ++ rs, ?_, rfl, rfl⟩
  unfold boxes
  rw [hrow]
  rfl

theorem takeWhile_boxes (h : ∀ r ∈ rs, r.y1 ≠ b.top) :
    (boxes b ++ rs).takeWhile (fun r => r.y1 = b.top) = boxes b := by
  rw [List.takeWhile_append_of_pos fun r hr => decide_eq_true (y1_of_mem_boxes hr)]
  cases rs with
  | nil => exact List.append_nil _
  | cons r rs =>
    rw [List.takeWhile_cons_of_neg (by simpa using h r List.mem_cons_self)]
    exact List.append_nil _

theorem dropWhile_boxes (h : ∀ r ∈ rs, r.y1 ≠ b.top) :
    (boxes b ++ rs).dropWhile (fun r => r.y1 = b.top) = rs := by
  rw [List.dropWhile_append_of_pos fun r hr => decide_eq_true (y1_of_mem_boxes hr)]
  cases rs with
  | nil => rfl
  | cons r rs => exact List.dropWhile_cons_of_neg (by simpa using h r List.mem_cons_self)

theorem bandOf_append (hb : b.row ≠ []) (h : ∀ r ∈ rs, r.y1 ≠ b.top) :
    bandOf (boxes b ++ rs) = boxes b := by
  obtain ⟨r, rs', hcons, hy1, -⟩ := exists_first hb rs
  rw [hcons]
  show (r :: rs').takeWhile (fun b => b.y1 = r.y1) = _
  rw [← hcons, hy1]
  exact takeWhile_boxes h

theorem afterBand_append (hb : b.row ≠ []) (h : ∀ r ∈ rs, r.y1 ≠ b.top) :
    afterBand (boxes b ++ rs) = rs := by
  obtain ⟨r, rs', hcons, hy1, -⟩ := exists_first hb rs
  rw [hcons]
  show (r :: rs').dropWhile (fun b => b.y1 = r.y1) = _
  rw [← hcons, hy1]
  exact dropWhile_boxes h

/-- The boxes below the first band do not begin where it does. -/
theorem y1_ne_of_banded (h : Banded (b :: bs)) : ∀ r ∈ boxesOf bs, r.y1 ≠ b.top := by
  intro r hr
  obtain ⟨hb, habove, -⟩ := banded_cons.mp h
  obtain ⟨c, hc, hr⟩ := exists_of_mem_boxesOf hr
  rw [y1_of_mem_boxes hr]
  exact (hb.high.trans_le (habove c hc).1).ne'

theorem bandOf_boxesOf (h : Banded (b :: bs)) : bandOf (boxesOf (b :: bs)) = boxes b :=
  bandOf_append (banded_cons.mp h).1.row_ne (y1_ne_of_banded h)

theorem afterBand_boxesOf (h : Banded (b :: bs)) : afterBand (boxesOf (b :: bs)) = boxesOf bs :=
  afterBand_append (banded_cons.mp h).1.row_ne (y1_ne_of_banded h)

/-! ## Coalescing -/

theorem linesUp_iff {t u v w : ℤ} {row row' : List (ℤ × ℤ)} (h : row.length = row'.length) :
    linesUp (row.map (boxAt t u)) (row'.map (boxAt v w)) = true ↔ row = row' := by
  induction row generalizing row' with
  | nil =>
    obtain rfl := List.length_eq_zero_iff.mp h.symm
    exact iff_of_true rfl rfl
  | cons s row ih =>
    cases row' with
    | nil => exact absurd h (Nat.succ_ne_zero _)
    | cons s' row' =>
      have hrest := ih (Nat.succ_injective h)
      unfold linesUp at hrest ⊢
      rw [List.map_cons, List.map_cons, List.zip_cons_cons, List.all_cons, Bool.and_eq_true,
        hrest, List.cons_eq_cons, Prod.ext_iff, Bool.and_eq_true, decide_eq_true_eq,
        decide_eq_true_eq]
      rfl

/-- The boxes of the band before are stretched to the bottom of the band. -/
theorem zipWith_stretched {t u v w : ℤ} (row : List (ℤ × ℤ)) :
    List.zipWith (fun p c : Box => { p with y2 := c.y2 }) (row.map (boxAt t u))
      (row.map (boxAt v w)) = row.map (boxAt t w) := by
  induction row with
  | nil => rfl
  | cons s row ih => exact congrArg (boxAt t w s :: ·) ih

/-- Two bands that are not empty may be coalesced if one goes on with the row of the other. -/
theorem coalesces_iff (hn : n.row ≠ []) :
    ((boxes n).length = (boxes last).length ∧ (boxes n).length ≠ 0 ∧
      (boxes last).head?.map (·.y2) = (boxes n).head?.map (·.y1) ∧
      linesUp (boxes last) (boxes n) = true) ↔ last.bottom = n.top ∧ last.row = n.row := by
  obtain ⟨s, row, hrow⟩ := List.exists_cons_of_ne_nil hn
  constructor
  · rintro ⟨hlen, -, htouch, hlines⟩
    have hsame : last.row = n.row := by
      rw [length_boxes, length_boxes] at hlen
      exact (linesUp_iff hlen.symm).mp hlines
    refine ⟨?_, hsame⟩
    unfold boxes at htouch
    rw [hsame, hrow] at htouch
    exact Option.some_injective _ htouch
  · rintro ⟨htouch, hsame⟩
    refine ⟨?_, ?_, ?_, ?_⟩
    · rw [length_boxes, length_boxes, hsame]
    · rw [length_boxes, hrow]
      exact Nat.succ_ne_zero _
    · unfold boxes
      rw [hsame, hrow]
      exact congrArg some htouch
    · exact (linesUp_iff (congrArg List.length hsame)).mpr hsame

/-- Where the last band of a region begins. -/
def lastStart (bs : List Band) : ℕ := (boxesOf bs.dropLast).length

@[simp] theorem boxesOf_singleton (b : Band) : boxesOf [b] = boxes b := List.append_nil _

theorem lastStart_concat (bs : List Band) (b : Band) :
    lastStart (bs ++ [b]) = (boxesOf bs).length := by
  unfold lastStart
  rw [List.dropLast_concat]

/-- **Coalescing is adding a band.** -/
theorem miCoalesce_eq (hn : n.row ≠ []) (hrs : ∀ r ∈ rs, r.y1 ≠ n.top) :
    let coalesced :=
      miCoalesce (boxesOf out ++ (boxes n ++ rs)) (lastStart out) (boxesOf out).length
    coalesced.1 = boxesOf (addBand out n) ++ rs ∧
      (rs = [] → coalesced.2 = lastStart (addBand out n)) := by
  have hcur : bandOf (boxes n ++ rs) = boxes n := bandOf_append hn hrs
  have hrest : afterBand (boxes n ++ rs) = rs := afterBand_append hn hrs
  have hdrop : (boxesOf out ++ (boxes n ++ rs)).drop (boxesOf out).length = boxes n ++ rs :=
    List.drop_left
  intro coalesced
  unfold coalesced miCoalesce
  dsimp only
  rw [hdrop, hcur, hrest]
  -- the new band is left as it is
  have happended : addBand out n = out ++ [n] →
      boxesOf out ++ (boxes n ++ rs) = boxesOf (addBand out n) ++ rs ∧
        (rs = [] → (if rs ≠ [] then (boxesOf out ++ (boxes n ++ rs)).length -
          (bandOf (boxesOf out ++ (boxes n ++ rs)).reverse).length else (boxesOf out).length) =
            lastStart (addBand out n)) := by
    intro hadd
    rw [hadd, lastStart_concat, boxesOf_concat, List.append_assoc]
    exact ⟨rfl, fun hnil => if_neg (not_not.mpr hnil)⟩
  cases hlast : out.getLast? with
  | none =>
    obtain rfl := List.getLast?_eq_none_iff.mp hlast
    rw [if_neg fun h => h.2.1 h.1]
    exact happended (if_neg hn)
  | some last =>
    obtain ⟨front, rfl⟩ : ∃ front, out = front ++ [last] := List.getLast?_eq_some_iff.mp hlast
    have hadd : addBand (front ++ [last]) n = if last.bottom = n.top ∧ last.row = n.row then
        front ++ [⟨last.top, n.bottom, last.row⟩] else front ++ [last] ++ [n] := by
      unfold addBand
      rw [if_neg hn, hlast, List.dropLast_concat]
    have hprev : (boxesOf (front ++ [last])).length - lastStart (front ++ [last]) =
        (boxes last).length := by
      rw [lastStart_concat, boxesOf_concat, List.length_append]
      exact Nat.add_sub_cancel_left _ _
    have hbefore : boxesOf (front ++ [last]) ++ (boxes n ++ rs) =
        boxesOf front ++ (boxes last ++ (boxes n ++ rs)) := by
      rw [boxesOf_concat, List.append_assoc]
    have htaken : ((boxesOf (front ++ [last]) ++ (boxes n ++ rs)).drop
        (lastStart (front ++ [last]))).take (boxes last).length = boxes last := by
      rw [hbefore, lastStart_concat, List.drop_left, List.take_left]
    have hfront : (boxesOf (front ++ [last]) ++ (boxes n ++ rs)).take
        (lastStart (front ++ [last])) = boxesOf front := by
      rw [hbefore, lastStart_concat, List.take_left]
    rw [hprev, htaken]
    by_cases hjoin : last.bottom = n.top ∧ last.row = n.row
    · rw [if_pos ((coalesces_iff hn).mpr hjoin), hfront, hadd, if_pos hjoin, lastStart_concat]
      refine ⟨congrArg (· ++ rs) (Eq.trans (congrArg (boxesOf front ++ ·) ?_)
        (boxesOf_concat _ _).symm), fun hnil => ?_⟩
      · unfold boxes
        rw [hjoin.2]
        exact zipWith_stretched n.row
      · exact (if_pos hnil).trans (lastStart_concat _ _).symm
    · rw [if_neg (mt (coalesces_iff hn).mp hjoin)]
      exact happended (hadd.trans (if_neg hjoin))

theorem length_addBand_le : (boxesOf (addBand out n)).length ≤ (boxesOf out ++ boxes n).length := by
  unfold addBand
  split
  · exact (List.sublist_append_left _ _).length_le
  split
  · next last hlast =>
      obtain ⟨front, rfl⟩ : ∃ front, out = front ++ [last] := List.getLast?_eq_some_iff.mp hlast
      rw [List.dropLast_concat]
      split
      · rw [boxesOf_concat, boxesOf_concat]
        simp
      · exact (congrArg List.length (boxesOf_concat _ _)).le
  · next hnone =>
      rw [List.getLast?_eq_none_iff.mp hnone]
      exact (congrArg List.length (boxesOf_singleton n)).le

/-! ## The loop -/

/-- The new region holds bands, and the last of them begins where `prevBand` is. -/
structure Holds (P : NewReg → Prop) (out : List Band) (p : NewReg × ℕ) : Prop where
  rects : p.1.rects = boxesOf out
  last : p.2 = lastStart out
  kept : P p.1

variable {newReg : NewReg} {prevBand : ℕ} {f : BandFuncs} {op : RowOp}
  {P : NewReg → Prop}

theorem coalesceFrom_same : coalesceFrom newReg.rects.length newReg prevBand = (newReg, prevBand) :=
  if_neg (not_not.mpr rfl)

/-- Boxes are added, and the first band of them is coalesced. -/
theorem Holds.coalesced (h : Holds P out (newReg, prevBand)) (hP : Kept P) (hn : n.row ≠ [])
    (hrs : ∀ r ∈ rs, r.y1 ≠ n.top) :
    let p := coalesceFrom newReg.rects.length (newReg.adds (boxes n ++ rs)) prevBand
    p.1.rects = boxesOf (addBand out n) ++ rs ∧ P p.1 ∧
      (rs = [] → p.2 = lastStart (addBand out n)) := by
  obtain ⟨hrects, hlast, hkept⟩ := h
  dsimp only at hrects hlast hkept
  have hadded := hP.adds hkept (boxes n ++ rs)
  have hall := NewReg.rects_adds (hP.pos hkept) (boxes n ++ rs)
  have hmore : (newReg.adds (boxes n ++ rs)).rects.length ≠ newReg.rects.length := by
    rw [hall, List.length_append, List.length_append]
    have hpos := List.length_pos_iff.mpr (boxes_ne_nil hn)
    omega
  have hco := @miCoalesce_eq n out rs hn hrs
  rw [← hrects, ← hlast, ← hall] at hco
  intro p
  have hp : p = ({ newReg.adds (boxes n ++ rs) with
      rects := (miCoalesce (newReg.adds (boxes n ++ rs)).rects prevBand newReg.rects.length).1 },
      (miCoalesce (newReg.adds (boxes n ++ rs)).rects prevBand newReg.rects.length).2) :=
    if_pos hmore
  rw [hp]
  refine ⟨hco.1, hP.join ?_ ?_ hadded, hco.2⟩
  · rw [hco.1]
    obtain ⟨front, last, hadd, -, hrow⟩ := @addBand_last n out hn
    have hne : boxes last ≠ [] := boxes_ne_nil (hrow ▸ hn)
    rw [hadd, boxesOf_concat]
    simp [hne]
  · rw [hco.1, hall, hrects, List.length_append, ← List.append_assoc,
      List.length_append]
    exact Nat.add_le_add_right length_addBand_le _

/-- A band is added, unless it is empty. -/
theorem Holds.added (h : Holds P out (newReg, prevBand)) (hP : Kept P) (n : Band) :
    Holds P (addBand out n)
      (coalesceFrom newReg.rects.length (newReg.adds (boxes n)) prevBand) := by
  by_cases hn : n.row = []
  · have hnone : boxes n = [] := by
      unfold boxes
      rw [hn]
      rfl
    have hsame : addBand out n = out := if_pos hn
    rw [hnone, hsame, NewReg.adds_nil, coalesceFrom_same]
    exact h
  · obtain ⟨hrects, hkept, hlast⟩ := h.coalesced hP hn (fun r hr => absurd hr List.not_mem_nil)
    rw [List.append_nil] at hrects hkept hlast
    exact ⟨hrects.trans (List.append_nil _), hlast rfl, hkept⟩

/-- A part that only one of the regions may have is added. -/
theorem Holds.part (h : Holds P out (newReg, prevBand)) (hP : Kept P) {keep : Bool}
    {func : Option ((y1 y2 : ℤ) → List Box → NewReg → NewReg)}
    (hfunc : ∀ (y1 y2 : ℤ) (r : List Box) (newReg : NewReg), callNonOverlap func y1 y2 r newReg =
      if keep then newReg.adds ((r.map Box.span).map (boxAt y1 y2)) else newReg) (t u : ℤ) :
    Holds P (if keep then addPart t u b.row out else out) (coalesceFrom newReg.rects.length
      (if t ≠ u then callNonOverlap func t u (boxes b) newReg else newReg) prevBand) := by
  have hnone : Holds P out (coalesceFrom newReg.rects.length newReg prevBand) := by
    rw [coalesceFrom_same]
    exact h
  rw [hfunc, map_span_boxes]
  cases keep with
  | false =>
    rw [if_neg Bool.false_ne_true, if_neg Bool.false_ne_true, ite_self]
    exact hnone
  | true =>
    rw [if_pos rfl, if_pos rfl]
    unfold addPart
    split
    · exact h.added hP ⟨t, u, b.row⟩
    · exact hnone

theorem Holds.alone (hf : Implements f op) (hP : Kept P) (h : Holds P out (newReg, prevBand))
    (ybot : ℤ) {r1 r2 : Box} (hr1 : r1.y1 = b.top ∧ r1.y2 = b.bottom)
    (hr2 : r2.y1 = c.top ∧ r2.y2 = c.bottom) :
    let p := addNonOverlap f r1 r2 (boxes b) (boxes c) ybot newReg
    p.2 = max b.top c.top ∧
      Holds P (op.alone b c ybot out) (coalesceFrom newReg.rects.length p.1 prevBand) := by
  intro p
  unfold p addNonOverlap RowOp.alone
  rw [hr1.1, hr1.2, hr2.1, hr2.2]
  split
  · next hlt => exact ⟨(max_eq_right hlt.le).symm, h.part hP hf.first _ _⟩
  split
  · next hlt => exact ⟨(max_eq_left hlt.le).symm, h.part hP hf.second _ _⟩
  · next hle _ =>
      refine ⟨(max_eq_left (not_lt.mp hle)).symm, ?_⟩
      rw [coalesceFrom_same]
      exact h

/-- A box of a band that is not empty begins above where the bands end. -/
theorem y1_lt_of_bandsTo (h : BandsTo ybot bs) {r : Box} (hr : r ∈ boxesOf bs) : r.y1 < ybot := by
  obtain ⟨b, hb, hr⟩ := exists_of_mem_boxesOf hr
  rw [y1_of_mem_boxes hr]
  exact (h.banded.proper b hb).high.trans_le (h.ends b hb)

/-- **One step of the loop** adds the lines down to the end of a band. -/
theorem Holds.lines (hf : Implements f op) (hP : Kept P) (h : Holds P out (newReg, prevBand))
    (hb : b.Proper) (hc : c.Proper) (hahead : Ahead ybot b c) (hout : BandsTo ybot out)
    {r1 r2 : Box} (hr1 : r1.y1 = b.top ∧ r1.y2 = b.bottom) (hr2 : r2.y1 = c.top ∧ r2.y2 = c.bottom) :
    let p := addNonOverlap f r1 r2 (boxes b) (boxes c) ybot newReg
    let q := coalesceFrom newReg.rects.length p.1 prevBand
    Holds P (op.lines b c ybot out) (coalesceFrom q.1.rects.length
      (if min r1.y2 r2.y2 > p.2 then
        f.overlapFunc p.2 (min r1.y2 r2.y2) (boxes b) (boxes c) q.1 else q.1) q.2) := by
  obtain ⟨htop, halone⟩ := h.alone hf hP ybot hr1 hr2
  intro p q
  unfold RowOp.lines
  dsimp only
  rw [show p.2 = max b.top c.top from htop, hr1.2, hr2.2]
  by_cases hmeet : max b.top c.top < min b.bottom c.bottom
  · have hto := (alone_spec op hb hc hahead hout).1.mono (min_le_left _ _)
    have hfresh : ∀ r ∈ q.1.rects, r.y1 ≠ max b.top c.top := by
      intro r hr
      rw [halone.rects] at hr
      exact (y1_lt_of_bandsTo hto hr).ne
    have hspaced : Lib.Spaced ((boxes b).map Box.span) := (map_span_boxes b).symm ▸ hb.spaced
    rw [if_pos hmeet, if_pos hmeet, hf.overlap hspaced (hP.pos halone.kept) hfresh, map_span_boxes, map_span_boxes]
    exact Holds.added halone hP ⟨_, _, op.overlap b.row c.row⟩
  · rw [if_neg hmeet, if_neg hmeet, coalesceFrom_same]
    exact halone

/-! ### What is left -/

theorem addRest_none {func : Option ((y1 y2 : ℤ) → List Box → NewReg → NewReg)}
    (hfunc : ∀ (y1 y2 : ℤ) (r : List Box) (newReg : NewReg),
      callNonOverlap func y1 y2 r newReg = newReg) (r : List Box) :
    addRest func ybot r newReg = newReg := by
  fun_induction addRest func ybot r newReg with
  | case1 => rfl
  | case2 newReg r rs ih => rw [ih, hfunc]

section

variable {func : Option ((y1 y2 : ℤ) → List Box → NewReg → NewReg)}

theorem addRest_band (hfunc : ∀ (y1 y2 : ℤ) (r : List Box) (newReg : NewReg),
      callNonOverlap func y1 y2 r newReg = newReg.adds ((r.map Box.span).map (boxAt y1 y2)))
    (h : Banded (b :: bs)) (newReg : NewReg) :
    addRest func ybot (boxesOf (b :: bs)) newReg =
      addRest func ybot (boxesOf bs) (newReg.adds (boxes ⟨max b.top ybot, b.bottom, b.row⟩)) := by
  obtain ⟨r, rs', hcons, hy1, hy2⟩ := exists_first (banded_cons.mp h).1.row_ne (boxesOf bs)
  have hband := bandOf_boxesOf h
  have hafter := afterBand_boxesOf h
  rw [boxesOf_cons, hcons] at hband hafter
  rw [boxesOf_cons, hcons, addRest, hband, hafter, hfunc, hy1, hy2, map_span_boxes]
  rfl

/-- Bands that begin below the line are added as they are. -/
theorem addRest_fresh (hfunc : ∀ (y1 y2 : ℤ) (r : List Box) (newReg : NewReg),
      callNonOverlap func y1 y2 r newReg = newReg.adds ((r.map Box.span).map (boxAt y1 y2)))
    (hbs : Banded bs) (hfresh : ∀ b ∈ bs, ybot ≤ b.top) (newReg : NewReg) :
    addRest func ybot (boxesOf bs) newReg = newReg.adds (boxesOf bs) := by
  induction bs generalizing newReg with
  | nil => rw [boxesOf_nil, addRest, NewReg.adds_nil]
  | cons b bs ih =>
    obtain ⟨htop, hfresh⟩ := List.forall_mem_cons.mp hfresh
    rw [addRest_band hfunc hbs, max_eq_left htop, ih (banded_cons.mp hbs).2.2 hfresh,
      boxesOf_cons, NewReg.adds_append]

end

/-- What is left of one of the regions is added, and its first band coalesced. -/
theorem Holds.rest {func : Option ((y1 y2 : ℤ) → List Box → NewReg → NewReg)} {keep : Bool}
    (h : Holds P out (newReg, prevBand)) (hP : Kept P)
    (hfunc : ∀ (y1 y2 : ℤ) (r : List Box) (newReg : NewReg), callNonOverlap func y1 y2 r newReg =
      if keep then newReg.adds ((r.map Box.span).map (boxAt y1 y2)) else newReg)
    (hbs : Banded bs) (hends : ∀ b ∈ bs, ybot < b.bottom) :
    let filled := (coalesceFrom newReg.rects.length (addRest func ybot (boxesOf bs) newReg)
      prevBand).1
    filled.rects = boxesOf (RowOp.rest keep ybot bs out) ∧ P filled := by
  have hsame : (coalesceFrom newReg.rects.length newReg prevBand).1.rects = boxesOf out ∧
      P (coalesceFrom newReg.rects.length newReg prevBand).1 := by
    rw [coalesceFrom_same]
    exact ⟨h.rects, h.kept⟩
  cases keep with
  | false =>
    rw [addRest_none hfunc]
    exact hsame
  | true =>
    cases bs with
    | nil =>
      rw [boxesOf_nil, addRest]
      exact hsame
    | cons b bs =>
      obtain ⟨hb, habove, htail⟩ := banded_cons.mp hbs
      have hend : ybot < b.bottom := hends b List.mem_cons_self
      have hbelow : ∀ r ∈ boxesOf bs, r.y1 ≠ max b.top ybot := by
        intro r hr
        obtain ⟨c, hc, hr⟩ := exists_of_mem_boxesOf hr
        rw [y1_of_mem_boxes hr]
        exact ((max_lt hb.high hend).trans_le (habove c hc).1).ne'
      obtain ⟨hrects, hkept, -⟩ :=
        h.coalesced hP (n := ⟨max b.top ybot, b.bottom, b.row⟩) hb.row_ne hbelow
      rw [addRest_band hfunc hbs,
        addRest_fresh hfunc htail fun c hc => hend.le.trans (habove c hc).1,
        ← NewReg.adds_append, rest_eq hbs hend.le, boxesOf_append]
      exact ⟨hrects, hkept⟩

/-- The first step of the loop, in terms of the bands. -/
theorem regionLoop_cons (f : BandFuncs) (ybot : ℤ) (prevBand : ℕ) (newReg : NewReg)
    (hbs : Banded (b :: bs)) (hcs : Banded (c :: cs)) :
    ∃ r1 r2 : Box, (r1.y1 = b.top ∧ r1.y2 = b.bottom) ∧ (r2.y1 = c.top ∧ r2.y2 = c.bottom) ∧
      let p := addNonOverlap f r1 r2 (boxes b) (boxes c) ybot newReg
      let q := coalesceFrom newReg.rects.length p.1 prevBand
      let s := coalesceFrom q.1.rects.length
        (if min r1.y2 r2.y2 > p.2 then
          f.overlapFunc p.2 (min r1.y2 r2.y2) (boxes b) (boxes c) q.1 else q.1) q.2
      regionLoop f (boxesOf (b :: bs)) (boxesOf (c :: cs)) ybot prevBand newReg =
        regionLoop f (boxesOf (if b.bottom = min b.bottom c.bottom then bs else b :: bs))
          (boxesOf (if c.bottom = min b.bottom c.bottom then cs else c :: cs))
          (min b.bottom c.bottom) s.2 s.1 := by
  obtain ⟨r1, r1s, hcons1, hr1⟩ := exists_first (banded_cons.mp hbs).1.row_ne (boxesOf bs)
  obtain ⟨r2, r2s, hcons2, hr2⟩ := exists_first (banded_cons.mp hcs).1.row_ne (boxesOf cs)
  have hband1 := bandOf_boxesOf hbs
  have hband2 := bandOf_boxesOf hcs
  have hafter1 := afterBand_boxesOf hbs
  have hafter2 := afterBand_boxesOf hcs
  refine ⟨r1, r2, hr1, hr2, ?_⟩
  rw [apply_ite boxesOf, apply_ite boxesOf, ← hafter1, ← hafter2]
  rw [boxesOf_cons, hcons1] at hband1 ⊢
  rw [boxesOf_cons, hcons2] at hband2 ⊢
  rw [regionLoop, hband1, hband2, hr1.2, hr2.2]

/-- **The loop is the pass over the bands of both regions.** -/
theorem regionLoop_eq (hf : Implements f op) (hP : Kept P) (h : Holds P out (newReg, prevBand))
    (hbs : Banded bs) (hcs : Banded cs) (hout : BandsTo ybot out)
    (hbends : ∀ b ∈ bs, ybot < b.bottom) (hcends : ∀ c ∈ cs, ybot < c.bottom)
    (hfresh : (∀ b ∈ bs, ybot ≤ b.top) ∨ ∀ c ∈ cs, ybot ≤ c.top) :
    let filled := regionLoop f (boxesOf bs) (boxesOf cs) ybot prevBand newReg
    filled.rects = boxesOf (op.sweep bs cs ybot out) ∧ P filled := by
  induction bs, cs, ybot, out using sweep.induct op generalizing newReg prevBand with
  | case1 b bs c cs ybot out ih =>
    have hb := (banded_cons.mp hbs).1
    have hc := (banded_cons.mp hcs).1
    have hahead : Ahead ybot b c := by
      refine ⟨hbends b List.mem_cons_self, hcends c List.mem_cons_self, ?_⟩
      exact hfresh.imp (fun h => h b List.mem_cons_self) fun h => h c List.mem_cons_self
    obtain ⟨hto, -⟩ := lines_spec hf.keeps hb hc hahead hout
    obtain ⟨hbleft, hbends', hbfresh, -⟩ := hbs.left_spec (min_le_left b.bottom c.bottom)
    obtain ⟨hcleft, hcends', hcfresh, -⟩ := hcs.left_spec (min_le_right b.bottom c.bottom)
    have hfresh' : b.bottom = min b.bottom c.bottom ∨ c.bottom = min b.bottom c.bottom := by
      omega
    obtain ⟨r1, r2, hr1, hr2, hloop⟩ := regionLoop_cons f ybot prevBand newReg hbs hcs
    rw [hloop, sweep]
    exact ih (Holds.lines hf hP h hb hc hahead hout hr1 hr2) hbleft hcleft hto hbends' hcends'
      (hfresh'.imp hbfresh hcfresh)
  | case2 b bs ybot out =>
    have hrest := h.rest hP hf.first hbs hbends
    obtain ⟨r1, r1s, hcons1, -⟩ := exists_first (banded_cons.mp hbs).1.row_ne (boxesOf bs)
    rw [boxesOf_cons, hcons1] at hrest ⊢
    rw [boxesOf_nil, regionLoop, sweep]
    exact hrest
  | case3 cs ybot out =>
    rw [boxesOf_nil, regionLoop, sweep]
    exact h.rest hP hf.second hcs hcends

end KasmVNC.Rfb.Xregion
