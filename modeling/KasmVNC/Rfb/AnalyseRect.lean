import KasmVNC.Lib.Run
import KasmVNC.Rfb.HashPalette
import Mathlib.Algebra.BigOperators.Group.List.Basic

/-!
# Analysing a rectangle

Whatever has been inserted into a palette since it was cleared, its entries are sorted, each
colour is found, and the counts are those of the insertions. `analyseRect` goes through the
pixels of a rectangle and inserts the length of each run, so it has an exact histogram unless
there are too many colours. Its `rleRuns` are one less than the runs of all rows put together: a
run goes on in the next line, and the last one is not counted.
-/

namespace KasmVNC.Rfb

open KasmVNC.Lib

/-! ## Insertions -/

section Insertions

variable {p p' : Palette Pixel} {ins : List (Pixel × ℕ)} {c : Pixel} {n : ℕ}

/-- The pixels that have been inserted for a colour. -/
def pixelsFor (c : Pixel) (ins : List (Pixel × ℕ)) : ℕ :=
  ((ins.filter fun i => i.1 = c).map Prod.snd).sum

/-- How many colours there are. -/
def distinct (colours : List Pixel) : ℕ := colours.toFinset.card

/-- The palette has the first colours that were inserted, with all their pixels. -/
structure Counts (p : Palette Pixel) (ins : List (Pixel × ℕ)) : Prop where
  count : ∀ e ∈ p.entries, e.numPixels = pixelsFor e.colour ins
  subset : ∀ c ∈ p.colours, c ∈ ins.map Prod.fst
  size : p.size = min 256 (distinct (ins.map Prod.fst))

theorem pixelsFor_concat (c d : Pixel) (n : ℕ) (ins : List (Pixel × ℕ)) :
    pixelsFor c (ins ++ [(d, n)]) = pixelsFor c ins + if d = c then n else 0 := by
  rw [pixelsFor, List.filter_append, List.map_append, List.sum_append, pixelsFor]
  by_cases h : d = c <;> simp [h]

theorem pixelsFor_eq_zero (h : c ∉ ins.map Prod.fst) : pixelsFor c ins = 0 := by
  rw [pixelsFor, List.filter_eq_nil_iff.mpr fun i hi hic => ?_]
  · rfl
  · exact h (List.mem_map.mpr ⟨i, hi, of_decide_eq_true hic⟩)

theorem card_colours (p : Palette Pixel) : p.colours.toFinset.card = p.size := by
  have hnodup : p.colours.Nodup := p.nodup
  rw [List.toFinset_card_of_nodup hnodup, Palette.size, Palette.colours, List.length_map]

/-- Up to 256 colours none has been turned away. -/
theorem Counts.mem_colours (h : Counts p ins) (hle : distinct (ins.map Prod.fst) ≤ 256)
    (hc : c ∈ ins.map Prod.fst) : c ∈ p.colours := by
  have hsub : p.colours.toFinset ⊆ (ins.map Prod.fst).toFinset := fun d hd =>
    List.mem_toFinset.mpr (h.subset d (List.mem_toFinset.mp hd))
  have hcard : (ins.map Prod.fst).toFinset.card ≤ p.colours.toFinset.card := by
    rw [card_colours, h.size]
    exact le_min hle le_rfl
  rw [← List.mem_toFinset, Finset.eq_of_subset_of_card_le hsub hcard]
  exact List.mem_toFinset.mpr hc

theorem counts_empty : Counts {} [] :=
  ⟨fun _ he => absurd he List.not_mem_nil, fun _ hc => absurd hc List.not_mem_nil, rfl⟩

/-- The number of colours after another one. -/
theorem distinct_concat (colours : List Pixel) (c : Pixel) :
    distinct (colours ++ [c]) = distinct colours + if c ∈ colours then 0 else 1 := by
  have hinsert : (colours ++ [c]).toFinset = insert c colours.toFinset := by
    ext d
    simp
  rw [distinct, hinsert, distinct]
  split
  · next hmem => rw [Finset.insert_eq_of_mem (List.mem_toFinset.mpr hmem), Nat.add_zero]
  · next hmem => rw [Finset.card_insert_of_notMem fun h => hmem (List.mem_toFinset.mp h)]

/-- A colour that is not in the palette is new, unless the palette is full. -/
theorem Counts.not_mem (h : Counts p ins) (hnot : c ∉ p.colours) (hsize : p.size ≠ 256) :
    c ∉ ins.map Prod.fst ∧ distinct (ins.map Prod.fst) < 256 := by
  have hlt : distinct (ins.map Prod.fst) < 256 := by
    have := h.size
    omega
  exact ⟨fun hc => hnot (h.mem_colours hlt.le hc), hlt⟩

theorem Counts.pixelsOf_eq (h : Counts p ins) (hc : c ∈ p.colours ∨ p.size ≠ 256) :
    pixelsOf c p.entries = pixelsFor c ins := by
  rcases colour_cases c p.entries with ⟨-, hnone⟩ | ⟨e, before, after, heq, rfl, hbefore, -, -⟩
  · have hnot : c ∉ p.colours := fun hmem => by
      obtain ⟨e, he, hcol⟩ := Palette.mem_colours.mp hmem
      exact hnone e he hcol
    rw [pixelsOf_eq_zero hnone, pixelsFor_eq_zero (h.not_mem hnot (hc.resolve_left hnot)).1]
  · have he : e ∈ p.entries := by
      rw [heq]
      exact List.mem_append_right _ List.mem_cons_self
    rw [heq, pixelsOf_split rfl hbefore, h.count e he]

theorem Counts.insert (h : Counts p ins) (hins : p.insert c n = some p') :
    Counts p' (ins ++ [(c, n)]) := by
  -- The insertion has not failed.
  have hroom : c ∈ p.colours ∨ p.size ≠ 256 := by
    by_contra hfull
    rw [not_or, not_not] at hfull
    rw [Palette.insert_eq_none.mpr hfull] at hins
    cases hins
  constructor
  · intro e he
    rw [pixelsFor_concat]
    rcases (Palette.mem_entries_insert hins).mp he with rfl | ⟨hold, hne⟩
    · rw [if_pos rfl, h.pixelsOf_eq hroom]
    · rw [if_neg (Ne.symm hne), Nat.add_zero, h.count e hold]
  · intro d hd
    rw [List.map_append, List.mem_append]
    rcases (Palette.mem_colours_insert hins).mp hd with rfl | hold
    · exact .inr (by simp)
    · exact .inl (h.subset d hold)
  · -- The colour is new for the palette if it is new for the insertions: none was turned away.
    have hcard : p'.size = distinct (p.colours ++ [c]) := by
      have hset : p'.colours.toFinset = (p.colours ++ [c]).toFinset := by
        ext d
        rw [List.mem_toFinset, List.mem_toFinset, Palette.mem_colours_insert hins,
          List.mem_append, List.mem_singleton, or_comm]
      rw [← card_colours, hset]
      rfl
    have hsize : distinct p.colours = p.size := card_colours p
    rw [hcard, distinct_concat, hsize, List.map_append, List.map_singleton, distinct_concat]
    have hold := h.size
    by_cases hc : c ∈ p.colours
    · rw [if_pos hc, if_pos (h.subset c hc), Nat.add_zero, Nat.add_zero, hold]
    · obtain ⟨hnot, hlt⟩ := h.not_mem hc (hroom.resolve_left hc)
      rw [if_neg hc, if_neg hnot]
      omega

/-- An insertion that fails is that of another colour. -/
theorem Counts.full (h : Counts p ins) (hins : p.insert c n = none) :
    Counts p (ins ++ [(c, n)]) := by
  obtain ⟨hnot, hfull⟩ := Palette.insert_eq_none.mp hins
  constructor
  · intro e he
    have hne : c ≠ e.colour := fun heq => hnot (Palette.mem_colours.mpr ⟨e, he, heq.symm⟩)
    rw [pixelsFor_concat, if_neg hne, Nat.add_zero, h.count e he]
  · intro d hd
    rw [List.map_append]
    exact List.mem_append_left _ (h.subset d hd)
  · have hold := h.size
    rw [List.map_append, List.map_singleton, distinct_concat]
    omega

end Insertions

/-! ## Runs of the palette -/

inductive PaletteOp
  | clear
  | insert (colour : Pixel) (numPixels : ℕ)

namespace HashPalette

/-- An insertion that returns false has changed nothing. -/
def step (s : HashPalette) : PaletteOp → HashPalette
  | .clear => s.clear
  | .insert colour numPixels => (s.insert colour numPixels).getD s

/-- The insertions since the palette was cleared. -/
def record (ins : List (Pixel × ℕ)) : PaletteOp → List (Pixel × ℕ)
  | .clear => []
  | .insert colour numPixels => ins ++ [(colour, numPixels)]

/-- What users of a palette rely on. -/
structure Sound (s : HashPalette) (ins : List (Pixel × ℕ)) : Prop where
  sorted : ∀ i j, i < j → j < s.size → s.getCount j ≤ s.getCount i
  nodup : ∀ i < s.size, ∀ j < s.size, s.getColour i = s.getColour j → i = j
  lookup : ∀ i < s.size, s.lookup (s.getColour i) = some i
  count : ∀ i < s.size, s.getCount i = pixelsFor (s.getColour i) ins
  inserted : ∀ i < s.size, s.getColour i ∈ ins.map Prod.fst
  full : ∀ c n, s.insert c n = none ↔
    (∀ i < s.size, s.getColour i ≠ c) ∧ 256 < distinct ((ins ++ [(c, n)]).map Prod.fst)

/-- The palette that the hash table stands for, and what it has counted. -/
def Tracks (s : HashPalette) (ins : List (Pixel × ℕ)) : Prop :=
  ∃ p, s.Refines p ∧ Counts p ins

variable {s : HashPalette} {p : Palette Pixel} {ins : List (Pixel × ℕ)}

theorem tracks_clear (s : HashPalette) : s.clear.Tracks [] :=
  ⟨{}, refines_clear s, counts_empty⟩

theorem Tracks.insert (h : s.Tracks ins) (colour : Pixel) (numPixels : ℕ) :
    ((s.insert colour numPixels).getD s).Tracks (ins ++ [(colour, numPixels)]) := by
  obtain ⟨p, href, hcounts⟩ := h
  rcases href.insert colour numPixels with ⟨hs, hp⟩ | ⟨s', p', hs, hp, href'⟩
  · rw [hs]
    exact ⟨p, href, hcounts.full hp⟩
  · rw [hs]
    exact ⟨p', href', hcounts.insert hp⟩

/-- **Every run** of insertions is tracked. -/
theorem tracks_run (s : HashPalette) (ops : List PaletteOp) :
    (run step s.clear ops).Tracks (run record [] ops) := by
  induction ops using List.reverseRecOn with
  | nil => exact tracks_clear s
  | append_singleton ops op ih =>
    rw [run_append, run_append]
    cases op with
    | clear => exact tracks_clear _
    | insert colour numPixels => exact ih.insert colour numPixels

theorem Refines.row_eq (h : s.Refines p) {i : ℕ} (hi : i < s.size) :
    p.entries[i]? = some (s.row i) := by
  have hget : (List.range s.numColours)[i]? = some i := List.getElem?_range hi
  rw [h.entries, List.getElem?_map, hget]
  rfl

theorem Refines.mem_getColour (h : s.Refines p) {c : Pixel} :
    c ∈ p.colours ↔ ∃ i < s.size, s.getColour i = c := by
  rw [h.colours_eq]
  simp [size]

theorem Tracks.sound (h : s.Tracks ins) : s.Sound ins := by
  obtain ⟨p, href, hcounts⟩ := h
  constructor
  · intro i j hij hj
    have hi := List.getElem?_eq_some_iff.mp (href.row_eq (hij.trans hj))
    have hj := List.getElem?_eq_some_iff.mp (href.row_eq hj)
    obtain ⟨hi, hrowi⟩ := hi
    obtain ⟨hj, hrowj⟩ := hj
    have hsorted := List.pairwise_iff_getElem.mp p.sorted i j hi hj hij
    rw [hrowi, hrowj] at hsorted
    exact hsorted
  · intro i hi j hj
    exact href.getColour_inj hi hj
  · intro i hi
    exact href.lookup_getColour hi
  · intro i hi
    exact hcounts.count _ (List.mem_of_getElem? (href.row_eq hi))
  · intro i hi
    exact hcounts.subset _ (href.mem_getColour.mpr ⟨i, hi, rfl⟩)
  · intro c n
    have hnone : s.insert c n = none ↔ p.insert c n = none := by
      rcases href.insert c n with ⟨hs, hp⟩ | ⟨s', p', hs, hp, -⟩
      · exact iff_of_true hs hp
      · rw [hs, hp]
        exact iff_of_false (Option.some_ne_none _) (Option.some_ne_none _)
    have hnot : c ∉ p.colours ↔ ∀ i < s.size, s.getColour i ≠ c := by
      rw [href.mem_getColour]
      push Not
      rfl
    have hsize := hcounts.size
    rw [hnone, Palette.insert_eq_none, hnot, List.map_append, List.map_singleton, distinct_concat]
    refine and_congr_right fun hmissing => ?_
    have hmissing := hnot.mpr hmissing
    constructor
    · intro hfull
      split
      · next hc =>
          by_contra hle
          exact hmissing (hcounts.mem_colours (by omega) hc)
      · omega
    · -- As long as there is room, all inserted colours are there.
      intro hmany
      by_contra hroom
      obtain ⟨hc, hlt⟩ := hcounts.not_mem hmissing hroom
      rw [if_neg hc] at hmany
      omega

end HashPalette

/-! ## Counting in lists -/

section Lists

variable {maxColours count rleRuns : ℕ} {p : Palette Pixel} {colour : Pixel}
  {pixels cs : List Pixel}

/-- The runs of one colour. -/
def colourRuns : List Pixel → ℕ
  | [] => 0
  | [_] => 1
  | c :: d :: cs => colourRuns (d :: cs) + if c = d then 0 else 1

theorem colourRuns_append_le (xs ys : List Pixel) :
    colourRuns (xs ++ ys) ≤ colourRuns xs + colourRuns ys := by
  induction xs with
  | nil => simp
  | cons c xs ih =>
    cases xs with
    | nil =>
      cases ys with
      | nil => simp
      | cons d ys =>
        simp only [List.singleton_append, colourRuns]
        split <;> omega
    | cons d xs =>
      simp only [List.cons_append, colourRuns] at ih ⊢
      omega

/-- A run ends where the colour changes. -/
theorem analysePixels_rleRuns {res : Palette Pixel × ℕ}
    (h : analysePixels maxColours colour count p rleRuns cs = some res) :
    res.2 + 1 = rleRuns + colourRuns (colour :: cs) := by
  induction cs generalizing colour count p rleRuns with
  | nil =>
    obtain ⟨q, -, rfl⟩ := Option.map_eq_some_iff.mp h
    rfl
  | cons c cs ih =>
    rw [analysePixels] at h
    rw [colourRuns]
    split at h
    · next hne =>
        split at h
        · cases h
        · rw [ih h, if_neg (Ne.symm hne)]
          omega
    · next heq =>
        obtain rfl := not_not.mp heq
        rw [ih h, if_pos rfl, Nat.add_zero]

theorem Tallies.size_eq (h : Tallies p pixels) : p.size = distinct pixels := by
  have hset : p.colours.toFinset = pixels.toFinset := by
    ext c
    rw [List.mem_toFinset, List.mem_toFinset, h.mem_iff]
  rw [← card_colours, hset]
  rfl

theorem distinct_mono (h : ∀ c ∈ pixels, c ∈ cs) : distinct pixels ≤ distinct cs :=
  Finset.card_le_card fun c hc => List.mem_toFinset.mpr (h c (List.mem_toFinset.mp hc))

/-- Counting a run fails if it has a colour too many. -/
theorem countRun_eq_none (h : Tallies p pixels) (hpos : 0 < count) :
    countRun maxColours p colour count = none ↔
      min maxColours 256 < distinct (pixels ++ List.replicate count colour) := by
  have hsize := h.size_eq
  have hle := p.size_le
  cases hins : p.insert colour count with
  | none =>
    obtain ⟨hnot, hfull⟩ := Palette.insert_eq_none.mp hins
    have hnew : distinct (pixels ++ [colour]) = 257 := by
      rw [distinct_concat, if_neg fun hmem => hnot ((h.mem_iff _).mpr hmem), ← hsize, hfull]
    have hmono : distinct (pixels ++ [colour]) ≤
        distinct (pixels ++ List.replicate count colour) := by
      refine distinct_mono fun c hc => ?_
      simp only [List.mem_append, List.mem_singleton, List.mem_replicate] at hc ⊢
      exact hc.imp_right fun hcolour => ⟨hpos.ne', hcolour⟩
    rw [countRun, hins]
    exact iff_of_true rfl (by omega)
  | some p' =>
    have hsize' := (h.insert hpos hins).size_eq
    have hle' := p'.size_le
    rw [Palette.size] at hsize'
    rw [countRun, hins]
    dsimp only
    rw [Palette.size]
    split
    · exact iff_of_true rfl (by omega)
    · exact iff_of_false (Option.some_ne_none _) (by omega)

/-- **The histogram is complete** unless there are too many colours. -/
theorem analysePixels_eq_none (maxColours rleRuns : ℕ) (colour : Pixel) (cs : List Pixel)
    (h : Tallies p pixels) (hpos : 0 < count) :
    analysePixels maxColours colour count p rleRuns cs = none ↔
      min maxColours 256 < distinct (pixels ++ List.replicate count colour ++ cs) := by
  induction cs generalizing pixels colour count p rleRuns with
  | nil =>
    rw [analysePixels, Option.map_eq_none_iff, List.append_nil]
    exact countRun_eq_none h hpos
  | cons c cs ih =>
    rw [analysePixels]
    split
    · cases hrun : countRun maxColours p colour count with
      | none =>
        have hmany := (countRun_eq_none h hpos).mp hrun
        refine iff_of_true rfl (hmany.trans_le (distinct_mono fun d hd => ?_))
        exact List.mem_append_left _ hd
      | some q =>
        dsimp only
        rw [ih _ _ (countRun_spec h hpos hrun).1 Nat.one_pos, List.replicate_one,
          List.append_assoc _ [c], List.singleton_append]
    · next heq =>
        obtain rfl := not_not.mp heq
        rw [ih _ _ h (Nat.succ_pos count), List.replicate_succ', ← List.append_assoc,
          List.append_assoc _ [c], List.singleton_append]

/-- The analysis of pixels. -/
theorem analyseRect_cases (maxColours : ℕ) (c : Pixel) (cs : List Pixel) :
    (analyseRect maxColours (c :: cs) = none ∧ min maxColours 256 < distinct (c :: cs)) ∨
      ∃ res, analyseRect maxColours (c :: cs) = some res ∧ Tallies res.1 (c :: cs) ∧
        distinct (c :: cs) ≤ min maxColours 256 ∧ res.2 + 1 = colourRuns (c :: cs) := by
  have hfirst : analyseRect maxColours (c :: cs) = analysePixels maxColours c 1 {} 0 cs := by
    rw [analyseRect, analysePixels, if_neg (not_not.mpr rfl)]
  have hnone := analysePixels_eq_none maxColours 0 c cs tallies_empty Nat.one_pos
  rw [hfirst]
  cases hres : analysePixels maxColours c 1 {} 0 cs with
  | none => exact .inl ⟨rfl, hnone.mp hres⟩
  | some res =>
    rw [hres] at hnone
    have hfew := not_lt.mp fun hmany => Option.some_ne_none _ (hnone.mpr hmany)
    have hruns := analysePixels_rleRuns hres
    rw [Nat.zero_add] at hruns
    exact .inr ⟨res, rfl, (analysePixels_spec tallies_empty Nat.one_pos hres).1, hfew, hruns⟩

end Lists

/-! ## The rectangle -/

structure RectInfo where
  rleRuns : ℕ
  palette : HashPalette

/-- The variables of the loop. -/
structure AnalyseState where
  colour : Pixel
  count : ℕ
  info : RectInfo

/-- The pixels in the order of the loop, where `stride` is in pixels. -/
def rectPixels (width height : ℕ) (buffer : ℕ → Pixel) (stride : ℕ) : List Pixel :=
  raster width height (blockOf stride buffer)

/-- The runs of all rows. -/
def horizontalRuns (width height : ℕ) (buffer : ℕ → Pixel) (stride : ℕ) : ℕ :=
  ((List.range height).map fun y =>
    colourRuns ((List.range width).map fun x => blockOf stride buffer x y)).sum

namespace RectInfo

/-- The palette is updated with a run. An error is what `info` is if false is returned. -/
def insertRun (maxColours : ℕ) (info : RectInfo) (colour : Pixel) (count : ℕ) :
    Except RectInfo RectInfo :=
  match info.palette.insert colour count with
  | none => .error info
  | some palette =>
    if palette.size > maxColours then .error { info with palette }
    else .ok { info with palette }

/-- The body of the loop. -/
def analysePixel (maxColours : ℕ) (st : AnalyseState) (pixel : Pixel) :
    Except RectInfo AnalyseState :=
  if pixel ≠ st.colour then
    (insertRun maxColours st.info st.colour st.count).map fun info =>
      ⟨pixel, 1, { info with rleRuns := info.rleRuns + 1 }⟩
  else .ok { st with count := st.count + 1 }

/-- The loop, and the final pixels. -/
def analysePixels (maxColours : ℕ) (st : AnalyseState) (pixels : List Pixel) :
    Except RectInfo RectInfo :=
  tryRun (analysePixel maxColours) st pixels >>= fun st =>
    insertRun maxColours st.info st.colour st.count

/-- `analyseRect`, where `buffer` begins with the first pixel of the rectangle. -/
def analyseRect (info : RectInfo) (width height : ℕ) (buffer : ℕ → Pixel) (stride maxColours : ℕ) :
    Except RectInfo RectInfo :=
  analysePixels maxColours ⟨buffer 0, 0, ⟨0, info.palette.clear⟩⟩
    (rectPixels width height buffer stride)

variable {maxColours : ℕ} {p : Palette Pixel} {info : RectInfo}

theorem insertRun_refines (h : info.palette.Refines p) (maxColours : ℕ) (colour : Pixel)
    (count : ℕ) :
    (countRun maxColours p colour count = none ∧
        ∃ info', insertRun maxColours info colour count = .error info') ∨
      ∃ p' info', countRun maxColours p colour count = some p' ∧
        insertRun maxColours info colour count = .ok info' ∧
        info'.palette.Refines p' ∧ info'.rleRuns = info.rleRuns := by
  unfold countRun insertRun
  rcases h.insert colour count with ⟨hs, hp⟩ | ⟨palette, p', hs, hp, href⟩
  · rw [hs, hp]
    exact .inl ⟨rfl, info, rfl⟩
  · rw [hs, hp]
    have hsize : palette.size = p'.size := href.numColours_eq
    dsimp only
    rw [hsize]
    split
    · exact .inl ⟨rfl, _, rfl⟩
    · exact .inr ⟨p', _, rfl, rfl, href, rfl⟩

theorem analysePixels_cons (st : AnalyseState) (c : Pixel) (cs : List Pixel) :
    analysePixels maxColours st (c :: cs) =
      analysePixel maxColours st c >>= fun st' => analysePixels maxColours st' cs := by
  rw [analysePixels, tryRun]
  cases analysePixel maxColours st c <;> rfl

/-- **The analysis** with the hash table is the one with the palette. -/
theorem analysePixels_refines (maxColours : ℕ) (st : AnalyseState) (pixels : List Pixel)
    (h : st.info.palette.Refines p) :
    (Rfb.analysePixels maxColours st.colour st.count p st.info.rleRuns pixels = none ∧
        ∃ info', analysePixels maxColours st pixels = .error info') ∨
      ∃ p' info', Rfb.analysePixels maxColours st.colour st.count p st.info.rleRuns pixels =
          some (p', info'.rleRuns) ∧
        analysePixels maxColours st pixels = .ok info' ∧ info'.palette.Refines p' := by
  induction pixels generalizing st p with
  | nil =>
    rcases insertRun_refines h maxColours st.colour st.count with
      ⟨hnone, info', herror⟩ | ⟨p', info', hsome, hok, href, hruns⟩
    · left
      rw [Rfb.analysePixels, hnone]
      exact ⟨rfl, info', herror⟩
    · right
      rw [Rfb.analysePixels, hsome, ← hruns]
      exact ⟨p', info', rfl, hok, href⟩
  | cons c cs ih =>
    rw [analysePixels_cons, Rfb.analysePixels, analysePixel]
    by_cases hc : c ≠ st.colour
    · rw [if_pos hc, if_pos hc]
      rcases insertRun_refines h maxColours st.colour st.count with
        ⟨hnone, info', herror⟩ | ⟨p', info', hsome, hok, href, hruns⟩
      · left
        rw [hnone, herror]
        exact ⟨rfl, info', rfl⟩
      · rw [hsome, hok, ← hruns]
        exact ih ⟨c, 1, { info' with rleRuns := info'.rleRuns + 1 }⟩ href
    · rw [if_neg hc, if_neg hc]
      exact ih { st with count := st.count + 1 } h

/-! ## The histogram -/

/-- Each colour of the pixels with the number of its pixels. -/
structure Histogram (s : HashPalette) (pixels : List Pixel) : Prop where
  colours : ∀ c, c ∈ pixels ↔ ∃ i < s.size, s.getColour i = c
  count : ∀ i < s.size, s.getCount i = pixels.count (s.getColour i)

variable {width height stride : ℕ} {buffer : ℕ → Pixel} {info' : RectInfo}

theorem histogram_of_tallies {s : HashPalette} {pixels : List Pixel} (href : s.Refines p)
    (h : Tallies p pixels) : Histogram s pixels := by
  constructor
  · intro c
    rw [← h.mem_iff, href.mem_getColour]
  · intro i hi
    have hcount := h.count _ (List.mem_of_getElem? (href.row_eq hi))
    refine hcount.trans (List.countP_congr fun c _ => ?_)
    rw [decide_eq_true_iff, beq_iff_eq]
    rfl

/-- The first pixel of the rectangle is that of the buffer. -/
theorem rectPixels_eq_cons (hw : 0 < width) (hh : 0 < height) (buffer : ℕ → Pixel) (stride : ℕ) :
    ∃ cs, rectPixels width height buffer stride = buffer 0 :: cs := by
  have hfirst := getElem?_raster (blockOf stride buffer) hw hh
  rw [Nat.zero_mul] at hfirst
  unfold rectPixels
  cases hpixels : raster width height (blockOf stride buffer) with
  | nil =>
    rw [hpixels] at hfirst
    cases hfirst
  | cons c cs =>
    rw [hpixels] at hfirst
    obtain rfl : c = blockOf stride buffer 0 0 := Option.some.inj hfirst
    rw [blockOf, Nat.zero_mul]
    exact ⟨cs, rfl⟩

theorem colourRuns_le (width height : ℕ) (buffer : ℕ → Pixel) (stride : ℕ) :
    colourRuns (rectPixels width height buffer stride) ≤
      horizontalRuns width height buffer stride := by
  induction height with
  | zero => exact le_rfl
  | succ height ih =>
    rw [rectPixels, raster_succ, horizontalRuns, List.range_succ, List.map_append,
      List.sum_append, List.map_singleton, List.sum_singleton]
    exact (colourRuns_append_le _ _).trans (Nat.add_le_add_right ih _)

/-- **A rectangle is analysed** if it has few enough colours. The histogram is exact, and the
runs are those of the pixels one row after another, but for the last run. -/
theorem analyseRect_cases (info : RectInfo) (hw : 0 < width) (hh : 0 < height)
    (buffer : ℕ → Pixel) (stride maxColours : ℕ) :
    ((∃ info', analyseRect info width height buffer stride maxColours = .error info') ∧
        min maxColours 256 < distinct (rectPixels width height buffer stride)) ∨
      ∃ info', analyseRect info width height buffer stride maxColours = .ok info' ∧
        Histogram info'.palette (rectPixels width height buffer stride) ∧
        distinct (rectPixels width height buffer stride) ≤ min maxColours 256 ∧
        info'.rleRuns + 1 = colourRuns (rectPixels width height buffer stride) := by
  obtain ⟨cs, hpixels⟩ := rectPixels_eq_cons hw hh buffer stride
  have hrefines := analysePixels_refines maxColours ⟨buffer 0, 0, ⟨0, info.palette.clear⟩⟩
    (buffer 0 :: cs) (HashPalette.refines_clear info.palette)
  unfold analyseRect
  rw [hpixels]
  rcases Rfb.analyseRect_cases maxColours (buffer 0) cs with
    ⟨hnone, hmany⟩ | ⟨res, hsome, htallies, hfew, hruns⟩
  · rcases hrefines with ⟨-, herror⟩ | ⟨p', info', hsome, -, -⟩
    · exact .inl ⟨herror, hmany⟩
    · exact absurd (hsome.symm.trans hnone) (Option.some_ne_none _)
  · rcases hrefines with ⟨hnone, -⟩ | ⟨p', info', hsome', hok, href⟩
    · exact absurd (hsome.symm.trans hnone) (Option.some_ne_none _)
    · obtain rfl := Option.some.inj (hsome.symm.trans hsome')
      exact .inr ⟨info', hok, histogram_of_tallies href htallies, hfew, hruns⟩

theorem pos_of_rectPixels (h : rectPixels width height buffer stride ≠ []) :
    0 < width ∧ 0 < height := by
  have hlen := List.length_pos_iff.mpr h
  rw [rectPixels, length_raster] at hlen
  exact ⟨Nat.pos_of_mul_pos_left hlen, Nat.pos_of_mul_pos_right hlen⟩

/-- A rectangle without pixels leaves a colour behind that it does not have. -/
theorem not_histogram_of_empty (info : RectInfo) (stride maxColours : ℕ)
    (hempty : rectPixels width height buffer stride = [])
    (hok : analyseRect info width height buffer stride maxColours = .ok info') :
    ¬ Histogram info'.palette [] := by
  intro hhist
  unfold analyseRect at hok
  rw [hempty] at hok
  obtain ⟨st, hst, hins⟩ := of_bind_ok hok
  obtain rfl := Except.ok.inj hst
  have hclear : (⟨0, info.palette.clear⟩ : RectInfo).palette.Refines {} :=
    HashPalette.refines_clear info.palette
  rcases insertRun_refines hclear maxColours (buffer 0) 0 with
    ⟨-, info'', herror⟩ | ⟨p', info'', hcount, hok', href, -⟩
  · rw [herror] at hins
    cases hins
  · obtain rfl := Except.ok.inj (hins.symm.trans hok')
    have hmem : buffer 0 ∈ p'.colours := by
      unfold countRun at hcount
      split at hcount
      · cases hcount
      · next q hq =>
          split at hcount
          · cases hcount
          · obtain rfl := Option.some.inj hcount
            exact (Palette.mem_colours_insert hq).mpr (.inl rfl)
    exact List.not_mem_nil ((hhist.colours _).mpr (href.mem_getColour.mp hmem))

/-- **Palettes and rectangles.** Every palette is sound, and the analysis of a rectangle has an
exact histogram if there are few enough colours. Its run count is never that of the rows, so it
meets that as well only if there is nothing to count. -/
theorem palette_analysis_iff (s : HashPalette) (ops : List PaletteOp) (info : RectInfo)
    (width height : ℕ) (buffer : ℕ → Pixel) (stride maxColours : ℕ) :
    (run HashPalette.step s.clear ops).Sound (run HashPalette.record [] ops) ∧
    (0 < width ∧ 0 < height → ((∃ info',
        analyseRect info width height buffer stride maxColours = .ok info' ∧
        Histogram info'.palette (rectPixels width height buffer stride)) ↔
      distinct (rectPixels width height buffer stride) ≤ min maxColours 256)) ∧
    (((∃ info', analyseRect info width height buffer stride maxColours = .ok info' ∧
        Histogram info'.palette (rectPixels width height buffer stride) ∧
        info'.rleRuns = horizontalRuns width height buffer stride) ↔
      distinct (rectPixels width height buffer stride) ≤ maxColours) ↔
    maxColours < distinct (rectPixels width height buffer stride)) := by
  refine ⟨(HashPalette.tracks_run s ops).sound, ?_, ?_⟩
  · rintro ⟨hw, hh⟩
    rcases analyseRect_cases info hw hh buffer stride maxColours with
      ⟨⟨e, herror⟩, hmany⟩ | ⟨info', hok, hhist, hfew, -⟩
    · rw [herror]
      refine iff_of_false ?_ (not_le.mpr hmany)
      rintro ⟨info', hok, -⟩
      cases hok
    · exact iff_of_true ⟨info', hok, hhist⟩ hfew
  · -- The last run is never counted, so an analysis that succeeds is always short of the runs.
    have hruns : ∀ info', analyseRect info width height buffer stride maxColours = .ok info' →
        Histogram info'.palette (rectPixels width height buffer stride) →
        distinct (rectPixels width height buffer stride) ≤ maxColours ∧
          info'.rleRuns < horizontalRuns width height buffer stride := by
      intro info' hok hhist
      by_cases hempty : rectPixels width height buffer stride = []
      · rw [hempty] at hhist
        exact absurd hhist (not_histogram_of_empty info stride maxColours hempty hok)
      · obtain ⟨hw, hh⟩ := pos_of_rectPixels hempty
        rcases analyseRect_cases info hw hh buffer stride maxColours with
          ⟨⟨e, herror⟩, -⟩ | ⟨info'', hok', -, hfew, hcount⟩
        · rw [herror] at hok
          cases hok
        · obtain rfl := Except.ok.inj (hok.symm.trans hok')
          have hle := colourRuns_le width height buffer stride
          exact ⟨hfew.trans (min_le_left _ _), by omega⟩
    constructor
    · intro hclaim
      by_contra hfew
      obtain ⟨info', hok, hhist, hequal⟩ := hclaim.mpr (not_lt.mp hfew)
      exact (hruns info' hok hhist).2.ne hequal
    · intro hmany
      refine iff_of_false ?_ (not_le.mpr hmany)
      rintro ⟨info', hok, hhist, -⟩
      exact absurd (hruns info' hok hhist).1 (not_le.mpr hmany)

/-- Two rows of two pixels, where a run goes on in the second row. -/
def crossed (i : ℕ) : Pixel := if i = 0 ∨ i = 3 then 0 else 1

def newPalette : HashPalette where
  numColours := 0
  list := fun _ => ⟨none, 0, 0⟩
  hash := fun _ => none
  entryNode := fun _ => 0
  entryPixels := fun _ => 0

/-- Two runs are counted, and there are four. -/
theorem crossed_runs :
    (analyseRect ⟨0, newPalette⟩ 2 2 crossed 2 256).toOption.map (·.rleRuns) = some 2 ∧
    horizontalRuns 2 2 crossed 2 = 4 ∧ distinct (rectPixels 2 2 crossed 2) = 2 ∧
    ¬ ((∃ info', analyseRect ⟨0, newPalette⟩ 2 2 crossed 2 256 = .ok info' ∧
        Histogram info'.palette (rectPixels 2 2 crossed 2) ∧
        info'.rleRuns = horizontalRuns 2 2 crossed 2) ↔
      distinct (rectPixels 2 2 crossed 2) ≤ 256) := by
  have hruns : (analyseRect ⟨0, newPalette⟩ 2 2 crossed 2 256).toOption.map (·.rleRuns) =
      some 2 := by decide
  have hrows : horizontalRuns 2 2 crossed 2 = 4 := by decide
  have hdistinct : distinct (rectPixels 2 2 crossed 2) = 2 := by decide
  refine ⟨hruns, hrows, hdistinct, fun hclaim => ?_⟩
  obtain ⟨info', hok, -, hequal⟩ := hclaim.mpr (by rw [hdistinct]; decide)
  rw [hok] at hruns
  have hcount : info'.rleRuns = 2 := Option.some.inj hruns
  rw [hcount, hrows] at hequal
  exact absurd hequal (by decide)

end RectInfo

end KasmVNC.Rfb
