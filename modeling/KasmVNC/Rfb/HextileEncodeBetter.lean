import KasmVNC.Rfb.HextileEncode
import KasmVNC.Rfb.Palette

/-!
# The better hextile encoder

`hextileEncodeBetter` first takes a tile apart into one-coloured rectangles, which
may overlap, and counts the rectangles of each colour in a palette. The colour of
most rectangles becomes the background, and the rectangles of the other colours are
sent. A tile with too many colours is sent raw, and so is one that would not get
shorter. Reads and writes outside the arrays of the source are faults of the model,
as are failing assertions, and there are none.
-/

namespace KasmVNC.Rfb

open KasmVNC.Lib HextileTile

variable {k : ℕ}

/-! ## Analysing a tile -/

/-- What `analyze` leaves in the members `m_flags`, `m_size`, `m_background`,
`m_foreground`, and `m_colors` with `m_coords`. Members that are not read afterwards
have default values here. -/
structure Analysis (k : ℕ) where
  flags : Byte := 0
  size : ℕ := 0
  background : RawPixel k := default
  foreground : RawPixel k := default
  subrects : List (Subrect (RawPixel k)) := []

/-- The state of the loops in `analyze`. -/
structure Scan (k : ℕ) where
  subrects : List (Subrect (RawPixel k))
  pal : Palette (RawPixel k)
  processed : Block Bool

/-- The pixels at the start of a tile that have the colour of the first one. -/
def samePixels (w h : ℕ) (tile : Block (RawPixel k)) : ℕ :=
  ((raster w h tile).takeWhile (· = tile 0 0)).length

/-- The complete rows of one colour at the top are the first rectangle. -/
def startScan (w y : ℕ) (colour : RawPixel k) : Scan k :=
  if y > 0 then
    { subrects := [⟨0, 0, w, y, colour⟩]
      pal := (Palette.insert {} colour 1).getD {}
      processed := fun _ _ => false }
  else { subrects := [], pal := {}, processed := fun _ _ => false }

/-- Save a rectangle and mark its pixels below the first row. The attempt gives up when
there are too many colours. -/
def saveSubrect (s : Subrect (RawPixel k)) (st : Scan k) : Attempt (Scan k) :=
  match require (st.subrects.length < 256) with
  | .error e => .error e
  | .ok () =>
    match st.pal.insert s.colour 1 with
    | none => .ok none
    | some pal =>
      if pal.size > 48 + 2 * (8 * k) then .ok none
      else
        .ok (some
          { subrects := st.subrects ++ [s]
            pal
            processed := Subrect.paint ⟨s.x, s.y + 1, s.w, s.h - 1, true⟩ st.processed })

section Analyze

variable (w h : ℕ) (tile : Block (RawPixel k))

/-- The body of the inner loop. -/
def scanPixel (y x : ℕ) (st : Scan k) : Attempt (ℕ × Scan k) :=
  if st.processed x y then .ok (some (1, st))
  else
    (saveSubrect (findSubrect w h tile x y) st).andThen fun st' =>
      .ok (some ((findSubrect w h tile x y).w, st'))

def scanRow (y : ℕ) : Scan k → Attempt (Scan k) :=
  Attempt.loopFrom 0 w (scanPixel w h tile y)

/-- The end of `analyze`: the flags and the size by the number of colours. -/
def classify (st : Scan k) : Except Fault (Analysis k) :=
  match require (2 ≤ st.pal.size) with
  | .error e => .error e
  | .ok () =>
    let numSubrects := st.subrects.length - st.pal.getCount 0
    if st.pal.size = 2 then
      .ok ⟨hextileAnySubrects, 1 + 2 * numSubrects, st.pal.getColour 0, st.pal.getColour 1,
        st.subrects⟩
    else
      .ok ⟨hextileAnySubrects ||| hextileSubrectsColoured, 1 + (2 + k) * numSubrects,
        st.pal.getColour 0, default, st.subrects⟩

/-- `HextileTile::analyze` -/
def analyze : Except Fault (Analysis k) :=
  let same := samePixels w h tile
  if same = h * w then .ok { background := tile 0 0 }
  else
    let y := same / w
    match Attempt.eachFrom y h (scanRow w h tile) (startScan w y (tile 0 0)) with
    | .error e => .error e
    | .ok none => .ok { flags := hextileRaw }
    | .ok (some st) => classify st

end Analyze

/-! ## Encoding -/

/-- `HextileTile::encode`. Both the count and the position in the buffer only grow, so
they are checked at the end. -/
def Analysis.encode (a : Analysis k) : Except Fault (List Byte) :=
  let sent := a.subrects.filter (·.colour ≠ a.background)
  let bytes := BitVec.ofNat 8 sent.length ::
    sent.flatMap (subrectBytes (a.flags &&& hextileSubrectsColoured ≠ 0))
  match require (a.subrects ≠ [] ∧ a.flags &&& hextileAnySubrects ≠ 0 ∧ sent.length < 256 ∧
    bytes.length ≤ 256 * k ∧ bytes.length = a.size) with
  | .error e => .error e
  | .ok () => .ok bytes

/-- The body of the loop over the tiles in `hextileEncodeBetter`. -/
def hextileEncodeBetterStep (pb : PreparedBuffer (RawPixel k)) (old : OldColours k) (t : Rect) :
    Except Fault (List Byte × OldColours k) :=
  let buf := pb.getImage t
  match analyze t.cols t.rows buf with
  | .error e => .error e
  | .ok tile =>
    if tile.flags &&& hextileRaw ≠ 0 ∨ tile.size ≥ t.cols * t.rows * k then
      .ok (writeHextileRaw (raster t.cols t.rows buf), {})
    else
      let bgNamed := old.specifyBg tile.background tile.flags
      if bgNamed.1 &&& hextileAnySubrects ≠ 0 then
        let named := bgNamed.2.specifyFg tile.foreground bgNamed.1
        match tile.encode with
        | .error e => .error e
        | .ok encoded =>
          .ok (writeHextileTile named.1 tile.background tile.foreground encoded, named.2)
      else .ok (writeHextileTile bgNamed.1 tile.background tile.foreground [], bgNamed.2)

/-- `hextileEncodeBetter` -/
def hextileEncodeBetter (width : PixelWidth) (pb : PreparedBuffer (RawPixel width.bytes)) :
    Except Fault (List Byte) :=
  encodeTiles (hextileEncodeBetterStep pb) {} (pb.getRect.tiles 16)

/-! ## The invariant of the scan -/

/-- Where the loops are: the rectangles found so far cover all pixels before the
position, and their colours are in the palette. -/
structure Scanned (w h : ℕ) (tile : Block (RawPixel k)) (x y : ℕ) (st : Scan k) : Prop where
  fits : ∀ s ∈ st.subrects, Fits w h s
  shows : ∀ s ∈ st.subrects, s.Shows tile
  tally : Tallies st.pal (st.subrects.map (·.colour))
  processed : ∀ p q, st.processed p q = true → Covered st.subrects p q
  visited : ∀ p < w, ∀ q < h, (q < y ∨ q = y ∧ p < x) → Covered st.subrects p q
  few : st.subrects.length ≤ y * w + x

section ScanLoops

variable {w h x y : ℕ} {tile : Block (RawPixel k)} {st : Scan k}

/-- There is room for one more. -/
theorem Scanned.length_lt (hs : Scanned w h tile x y st) (hw : w ≤ 16) (hh : h ≤ 16) (hx : x < w)
    (hy : y < h) : st.subrects.length < 256 := by
  have harea : (y + 1) * w ≤ 16 * 16 := Nat.mul_le_mul (le_trans hy hh) hw
  have hfew := hs.few
  rw [Nat.succ_mul] at harea
  omega

theorem ends_saveSubrect (hw : w ≤ 16) (hh : h ≤ 16) (hs : Scanned w h tile x y st) (hx : x < w)
    (hy : y < h) :
    Ends (saveSubrect (findSubrect w h tile x y) st)
      (Scanned w h tile (x + (findSubrect w h tile x y).w) y) := by
  have hfits := findSubrect_fits tile hx hy
  have hshows := findSubrect_shows (w := w) (h := h) (x := x) (y := y) tile
  have hsx : (findSubrect w h tile x y).x = x := rfl
  have hsy : (findSubrect w h tile x y).y = y := rfl
  generalize findSubrect w h tile x y = s at hfits hshows hsx hsy ⊢
  unfold saveSubrect
  rw [require_ok (hs.length_lt hw hh hx hy)]
  dsimp only
  cases hins : st.pal.insert s.colour 1 with
  | none => exact Ends.givesUp
  | some pal =>
    dsimp only
    by_cases hmany : pal.size > 48 + 2 * (8 * k)
    · rw [if_pos hmany]
      exact Ends.givesUp
    · rw [if_neg hmany]
      refine Ends.done ?_
      constructor
      · exact List.forall_mem_append.mpr ⟨hs.fits, List.forall_mem_singleton.mpr hfits⟩
      · exact List.forall_mem_append.mpr ⟨hs.shows, List.forall_mem_singleton.mpr hshows⟩
      · rw [List.map_append]
        exact hs.tally.insert Nat.one_pos hins
      · intro p q hpq
        dsimp only [Subrect.paint] at hpq
        split at hpq
        · rename_i hbelow
          obtain ⟨hcols, hqlo, hqhi⟩ := hbelow
          refine covered_last ⟨hcols, ?_⟩
          dsimp only at hqlo hqhi
          omega
        · exact (hs.processed p q hpq).mono s
      · intro p hpw q hqh hbefore
        by_cases hnew : q = y ∧ x ≤ p
        · obtain ⟨rfl, hxp⟩ := hnew
          refine covered_last ⟨⟨by omega, by omega⟩, by omega, ?_⟩
          have := hfits.hpos
          omega
        · exact (hs.visited p hpw q hqh (by omega)).mono s
      · have hfew := hs.few
        have hpos := hfits.wpos
        rw [List.length_append, List.length_singleton]
        omega

theorem ends_scanRow (hw : w ≤ 16) (hh : h ≤ 16) (hy : y < h) (hs : Scanned w h tile 0 y st) :
    Ends (scanRow w h tile y st) (Scanned w h tile 0 (y + 1)) := by
  have hrow : Ends (scanRow w h tile y st) (Scanned w h tile w y) := by
    refine Ends.loopFrom (fun x => Scanned w h tile x y) (Nat.zero_le w) hs ?_
    intro x hx st hs
    unfold scanPixel
    by_cases hproc : st.processed x y = true
    · rw [if_pos hproc]
      refine Ends.done ⟨⟨Nat.one_pos, hx⟩, ?_⟩
      exact
        { hs with
          visited := by
            intro p hpw q hqh hbefore
            by_cases hhere : q = y ∧ p = x
            · obtain ⟨rfl, rfl⟩ := hhere
              exact hs.processed p q hproc
            · exact hs.visited p hpw q hqh (by omega)
          few := le_trans hs.few (by omega) }
    · rw [if_neg hproc]
      have hfits := findSubrect_fits tile hx hy
      exact (ends_saveSubrect hw hh hs hx hy).andThen fun st' hs' =>
        Ends.done ⟨⟨hfits.wpos, hfits.right⟩, hs'⟩
  refine hrow.mono fun st' hs' => ?_
  exact
    { hs' with
      visited := fun p hpw q hqh hbefore => hs'.visited p hpw q hqh (by omega)
      few := by
        rw [Nat.succ_mul]
        exact hs'.few }

end ScanLoops

/-! ## The start of the scan -/

section Start

variable {w h : ℕ} {tile : Block (RawPixel k)}

theorem samePixels_le : samePixels w h tile ≤ h * w := by
  have hle := (List.takeWhile_prefix (fun c => decide (c = tile 0 0))
    (l := raster w h tile)).length_le
  rwa [length_raster] at hle

/-- The pixels that are counted have the first colour. -/
theorem samePixels_spec {x y : ℕ} (hx : x < w) (hy : y < h)
    (hsame : y * w + x < samePixels w h tile) : tile x y = tile 0 0 := by
  have hsplit := List.takeWhile_append_dropWhile (p := fun c => decide (c = tile 0 0))
    (l := raster w h tile)
  have hget := getElem?_raster tile hx hy
  rw [← hsplit, List.getElem?_append_left hsame] at hget
  exact of_decide_eq_true (List.mem_takeWhile_imp (p := fun c => decide (c = tile 0 0))
    (List.mem_of_getElem? hget))

theorem exists_other_pixel (h' : samePixels w h tile ≠ h * w) :
    ∃ x < w, ∃ y < h, tile x y ≠ tile 0 0 := by
  by_contra hall
  push Not at hall
  have hself : (raster w h tile).takeWhile (· = tile 0 0) = raster w h tile := by
    refine List.takeWhile_eq_self_iff.mpr fun c hc => ?_
    obtain ⟨x, hx, y, hy, rfl⟩ := mem_raster.mp hc
    exact decide_eq_true (hall x hx y hy)
  exact h' (by rw [samePixels, hself, length_raster])

/-- The number of complete rows at the top. -/
theorem completeRows_lt (hw : 0 < w) (h' : samePixels w h tile ≠ h * w) :
    samePixels w h tile / w < h := by
  rw [Nat.div_lt_iff_lt_mul hw]
  exact lt_of_le_of_ne samePixels_le h'

theorem scanned_start (hw : 0 < w) (h' : samePixels w h tile ≠ h * w) :
    Scanned w h tile 0 (samePixels w h tile / w)
      (startScan w (samePixels w h tile / w) (tile 0 0)) := by
  have hlt := completeRows_lt hw h'
  have hrow : ∀ x < w, ∀ y < samePixels w h tile / w, tile x y = tile 0 0 := by
    intro x hx y hy
    have hle : (y + 1) * w ≤ samePixels w h tile / w * w := Nat.mul_le_mul_right w hy
    have hdiv := Nat.div_mul_le_self (samePixels w h tile) w
    rw [Nat.succ_mul] at hle
    exact samePixels_spec hx (hy.trans hlt) (by omega)
  generalize samePixels w h tile / w = y at hlt hrow ⊢
  unfold startScan
  by_cases hy : y > 0
  · rw [if_pos hy]
    have hins : ∃ p, Palette.insert {} (tile 0 0) 1 = some p :=
      ⟨_, dif_pos (Or.inr (Nat.succ_ne_zero 255).symm)⟩
    obtain ⟨p, hp⟩ := hins
    constructor
    · exact List.forall_mem_singleton.mpr ⟨hw, hy, (Nat.zero_add w).le, by dsimp only; omega⟩
    · refine List.forall_mem_singleton.mpr fun a b hcont => ?_
      obtain ⟨⟨-, ha⟩, -, hb⟩ := hcont
      exact hrow a (by dsimp only at ha; omega) b (by dsimp only at hb; omega)
    · rw [hp]
      exact tallies_empty.insert Nat.one_pos hp
    · intro _ _ hproc
      cases hproc
    · intro a ha b _ hbefore
      exact ⟨_, List.mem_cons_self, ⟨Nat.zero_le a, by dsimp only; omega⟩, Nat.zero_le b,
        by dsimp only; omega⟩
    · have hmul : 1 * 1 ≤ y * w := Nat.mul_le_mul hy hw
      exact hmul
  · rw [if_neg hy]
    constructor
    · exact fun _ hs => nomatch hs
    · exact fun _ hs => nomatch hs
    · exact tallies_empty
    · intro _ _ hproc
      cases hproc
    · intro a _ b _ hbefore
      omega
    · exact Nat.zero_le _

end Start

/-! ## What is sent of a tile -/

/-- The rectangles that are not background. -/
def Scan.sent (st : Scan k) : List (Subrect (RawPixel k)) :=
  st.subrects.filter (·.colour ≠ st.pal.getColour 0)

/-- The analysis at the end of a scan, with two colours or with more. -/
def Scan.analysis (st : Scan k) (coloured : Bool) : Analysis k where
  flags := hextileAnySubrects ||| if coloured then hextileSubrectsColoured else 0
  size := 1 + st.sent.length * ((if coloured = true then k else 0) + 2)
  background := st.pal.getColour 0
  foreground := if coloured then default else st.pal.getColour 1
  subrects := st.subrects

section Sent

variable {w h : ℕ} {tile : Block (RawPixel k)} {st : Scan k}

/-- A tile with pixels of different colours. -/
theorem Scanned.two_le_size (hs : Scanned w h tile 0 h st)
    (hother : ∃ x < w, ∃ y < h, tile x y ≠ tile 0 0) : 2 ≤ st.pal.size := by
  obtain ⟨x, hx, y, hy, hne⟩ := hother
  have hmem : ∀ p < w, ∀ q < h, tile p q ∈ st.pal.colours := by
    intro p hp q hq
    obtain ⟨s, hsmem, hcont⟩ := hs.visited p hp q hq (Or.inl hq)
    rw [hs.tally.mem_iff, hs.shows s hsmem p q hcont]
    exact List.mem_map_of_mem hsmem
  have hfirst := hmem 0 (by omega) 0 (by omega)
  have hsecond := hmem x hx y hy
  have hlen : st.pal.colours.length = st.pal.size := List.length_map _
  by_contra hlt
  rcases hcolours : st.pal.colours with _ | ⟨c, _ | ⟨d, rest⟩⟩
  · rw [hcolours] at hfirst
    cases hfirst
  · rw [hcolours, List.mem_singleton] at hfirst hsecond
    exact hne (hsecond.trans hfirst.symm)
  · rw [hcolours, List.length_cons, List.length_cons] at hlen
    omega

theorem Scanned.sent_length (hs : Scanned w h tile 0 h st) (hsize : 2 ≤ st.pal.size) :
    st.sent.length = st.subrects.length - st.pal.getCount 0 ∧ 0 < st.pal.getCount 0 := by
  have hmem : st.pal.getColour 0 ∈ st.subrects.map (·.colour) :=
    (hs.tally.mem_iff _).mp (Palette.getColour_mem (by omega))
  obtain ⟨-, hcount⟩ := hs.tally.most_common hmem
  have hsplit := List.length_eq_length_filter_add (l := st.subrects)
    fun s => decide (s.colour = st.pal.getColour 0)
  have hbg : st.pal.getCount 0 =
      st.subrects.countP fun s => decide (s.colour = st.pal.getColour 0) := by
    rw [hcount, List.countP_map]
    rfl
  have hsent : st.sent = st.subrects.filter fun s => !decide (s.colour = st.pal.getColour 0) :=
    List.filter_congr fun s _ => by simp
  refine ⟨?_, ?_⟩
  · rw [hsent, hbg, List.countP_eq_length_filter]
    omega
  · rw [hcount]
    exact List.countP_pos_iff.mpr ⟨_, hmem, decide_eq_true rfl⟩

theorem Scanned.classify_eq (hs : Scanned w h tile 0 h st) (hsize : 2 ≤ st.pal.size) :
    ∃ coloured : Bool, classify st = .ok (st.analysis coloured) ∧
      (coloured = false → st.pal.size = 2) := by
  obtain ⟨hsent, -⟩ := hs.sent_length hsize
  unfold classify
  rw [require_ok hsize]
  dsimp only
  by_cases htwo : st.pal.size = 2
  · refine ⟨false, ?_, fun _ => htwo⟩
    rw [if_pos htwo, ← hsent]
    simp [Scan.analysis, Nat.mul_comm]
  · refine ⟨true, ?_, fun h => nomatch h⟩
    rw [if_neg htwo, ← hsent]
    simp [Scan.analysis, Nat.mul_comm, Nat.add_comm]

/-- The rectangles that are sent depict the tile. -/
theorem Scanned.depicts (hs : Scanned w h tile 0 h st) (hw : w ≤ 16) (hh : h ≤ 16)
    (hsize : 2 ≤ st.pal.size) {coloured : Bool} (hcol : coloured = false → st.pal.size = 2) :
    st.sent.length < 256 ∧ Depicts w h tile (subrects coloured (st.analysis coloured).background
      (st.analysis coloured).foreground st.sent) := by
  obtain ⟨hsent, hpos⟩ := hs.sent_length hsize
  have hfew := hs.few
  have harea : h * w ≤ 16 * 16 := Nat.mul_le_mul hh hw
  have hcount : st.sent.length < 256 := by omega
  have hmem : ∀ s ∈ st.sent, s ∈ st.subrects ∧ s.colour ≠ st.pal.getColour 0 := by
    intro s hmem
    obtain ⟨hmem, hne⟩ := List.mem_filter.mp hmem
    exact ⟨hmem, of_decide_eq_true hne⟩
  refine ⟨hcount, .subrects hcount (fun s hsent => hs.fits s (hmem s hsent).1)
    (fun s hsent => hs.shows s (hmem s hsent).1) ?_ ?_⟩
  · intro hc s hsent
    obtain ⟨hsub, hne⟩ := hmem s hsent
    have hcolour : s.colour ∈ st.pal.colours :=
      (hs.tally.mem_iff _).mpr (List.mem_map_of_mem hsub)
    have htwo : st.pal.colours.length = 2 := (List.length_map _).trans (hcol hc)
    obtain ⟨a, b, hab⟩ := List.length_eq_two.mp htwo
    have hfg : (st.analysis coloured).foreground = st.pal.getColour 1 :=
      if_neg (Bool.eq_false_iff.mp hc)
    unfold Palette.getColour at hne hfg
    rw [hab] at hne hfg hcolour
    rcases List.mem_cons.mp hcolour with ha | hb
    · exact absurd ha hne
    · rw [hfg]
      exact List.mem_singleton.mp hb
  · intro x hx y hy
    obtain ⟨s, hsub, hcont⟩ := hs.visited x hx y hy (Or.inl hy)
    by_cases hbg : s.colour = st.pal.getColour 0
    · exact Or.inl ((hs.shows s hsub x y hcont).trans hbg)
    · exact Or.inr ⟨s, List.mem_filter.mpr ⟨hsub, decide_eq_true hbg⟩, hcont⟩

/-- The assertion in `encode` holds, and the buffer is long enough for a tile that gets
shorter. -/
theorem Scanned.encode_eq (hs : Scanned w h tile 0 h st) (hw : w ≤ 16) (hh : h ≤ 16)
    (hsize : 2 ≤ st.pal.size) {coloured : Bool} (hcol : coloured = false → st.pal.size = 2)
    (hshort : (st.analysis coloured).size < w * h * k) :
    (st.analysis coloured).encode =
      .ok (BitVec.ofNat 8 st.sent.length :: st.sent.flatMap (subrectBytes coloured)) := by
  obtain ⟨hcount, -⟩ := hs.depicts hw hh hsize hcol
  obtain ⟨hsent, hpos⟩ := hs.sent_length hsize
  have harea : w * h * k ≤ 256 * k := Nat.mul_le_mul_right k (Nat.mul_le_mul hw hh)
  obtain ⟨-, -, -, hany, hcolflag⟩ := subrectsType_flags coloured false false
  have hflags : (st.analysis coloured).flags = subrectsType coloured false false := by
    cases coloured <;> rfl
  have hlen : (BitVec.ofNat 8 st.sent.length :: st.sent.flatMap (subrectBytes coloured)).length =
      (st.analysis coloured).size := by
    rw [List.length_cons, length_flatMap_of_length fun s _ => length_subrectBytes s, Nat.add_comm]
    rfl
  have hne : (st.analysis coloured).subrects ≠ [] := by
    intro hnil
    have hmem : st.pal.getColour 0 ∈ st.subrects.map (·.colour) :=
      (hs.tally.mem_iff _).mp (Palette.getColour_mem (by omega))
    obtain ⟨s, hmem, -⟩ := List.mem_map.mp hmem
    rw [show st.subrects = [] from hnil] at hmem
    cases hmem
  have hfilter : (st.analysis coloured).subrects.filter
      (·.colour ≠ (st.analysis coloured).background) = st.sent := rfl
  unfold Analysis.encode
  dsimp only
  rw [hfilter, hflags, decide_coloured, require_ok]
  exact ⟨hne, hany, hcount, by omega, hlen⟩

end Sent

/-! ## The whole encoder -/

theorem hextileEncodeBetterStep_depicts (pb : PreparedBuffer (RawPixel k)) :
    StepDepicts pb (hextileEncodeBetterStep pb) := by
  intro old t ht
  obtain ⟨⟨hwpos, hw⟩, hhpos, hh⟩ := Rect.tile_bounds (by decide) ht
  have hw16 : t.cols ≤ 16 := Nat.cast_le.mp hw
  have hh16 : t.rows ≤ 16 := Nat.cast_le.mp hh
  have hraw : ∃ tile : HextileTile k,
      Except.ok (writeHextileRaw (raster t.cols t.rows (pb.getImage t)), {}) =
        (.ok (tile.write old) : Except Fault _) ∧ Depicts t.cols t.rows (pb.getImage t) tile :=
    ⟨.raw _, rfl, .raw⟩
  unfold hextileEncodeBetterStep analyze
  dsimp only
  by_cases hsame : samePixels t.cols t.rows (pb.getImage t) = t.rows * t.cols
  · rw [if_pos hsame]
    dsimp only
    have hsolid : ∀ x < t.cols, ∀ y < t.rows, pb.getImage t x y = pb.getImage t 0 0 := by
      intro x hx y hy
      have hle : (y + 1) * t.cols ≤ t.rows * t.cols := Nat.mul_le_mul_right _ hy
      rw [Nat.succ_mul] at hle
      exact samePixels_spec hx hy (by omega)
    by_cases hlong : (0 : Byte) &&& hextileRaw ≠ 0 ∨ 0 ≥ t.cols * t.rows * k
    · rw [if_pos hlong]
      exact hraw
    · rw [if_neg hlong]
      obtain ⟨b, -, hbspec⟩ := specifyBg_spec old (pb.getImage t 0 0) 0
      obtain ⟨-, -, -, hany⟩ := solidType_flags b
      have hzero : ∀ tileType : Byte, 0 ||| tileType = tileType := fun _ => BitVec.zero_or
      refine ⟨.solid (pb.getImage t 0 0), ?_, .solid hsolid⟩
      unfold HextileTile.write
      dsimp only
      rw [hbspec, hzero]
      dsimp only
      rw [if_neg hany]
  · rw [if_neg hsame]
    have hscan : Ends (Attempt.eachFrom _ _ (scanRow t.cols t.rows (pb.getImage t)) _)
        (Scanned t.cols t.rows (pb.getImage t) 0 t.rows) :=
      Ends.eachFrom (fun y st => Scanned t.cols t.rows (pb.getImage t) 0 y st)
        (completeRows_lt hwpos hsame).le (scanned_start hwpos hsame)
        fun y hy st hs => ends_scanRow hw16 hh16 hy hs
    rcases hscan with hmany | ⟨st, hst, hs⟩
    · rw [hmany]
      dsimp only
      rw [if_pos (Or.inl (by decide))]
      exact hraw
    · rw [hst]
      dsimp only
      have hsize := hs.two_le_size (exists_other_pixel hsame)
      obtain ⟨coloured, hclass, hcol⟩ := hs.classify_eq hsize
      obtain ⟨-, hdepicts⟩ := hs.depicts hw16 hh16 hsize hcol
      rw [hclass]
      dsimp only
      by_cases hlong : (st.analysis coloured).flags &&& hextileRaw ≠ 0 ∨
          (st.analysis coloured).size ≥ t.cols * t.rows * k
      · rw [if_pos hlong]
        exact hraw
      · rw [if_neg hlong]
        push Not at hlong
        obtain ⟨b, f, new, hbspec, hfspec, hwrite⟩ := specify_subrects old coloured
          (st.analysis coloured).background (st.analysis coloured).foreground
        have hflags : (st.analysis coloured).flags =
          hextileAnySubrects ||| if coloured then hextileSubrectsColoured else 0 := rfl
        rw [hflags, hbspec]
        dsimp only
        rw [if_pos (subrectsType_flags coloured b false).2.2.2.1, hfspec,
          hs.encode_eq hw16 hh16 hsize hcol hlong.2]
        exact ⟨_, congrArg Except.ok (hwrite st.sent).symm, hdepicts⟩

theorem hextileEncodeBetter_depicts (width : PixelWidth)
    (pb : PreparedBuffer (RawPixel width.bytes)) :
    ∃ tiles, tiles.map Prod.fst = pb.getRect.tiles 16 ∧ DepictsAll pb tiles ∧
      hextileEncodeBetter width pb = .ok (writeTiles {} tiles) :=
  encodeTiles_depicts (hextileEncodeBetterStep_depicts pb) {} fun _ ht => ht

/-! ## Round trip -/

/-- A run of an encoder over a buffer has worked: there was no fault, the client reads
its bytes as a whole, and they decode to the buffer at the place of the rectangle. -/
def RoundTrips (k : ℕ) (encoder : PreparedBuffer (RawPixel k) → Except Fault (List Byte)) : Prop :=
  ∀ (pb : PreparedBuffer (RawPixel k)) (d : Point) (frame : Point → RawPixel k),
    ∃ bytes frame', encoder pb = .ok bytes ∧
      Reads (hextileReadRect k (pb.getRect.translate d) : Reader Empty _) bytes bytes ∧
      Reads (hextileDecode k (pb.getRect.translate d) frame : Reader Empty _) bytes frame' ∧
      (∀ p ∈ Region.ofRect pb.getRect, frame' (p + d) = pb.pixel p) ∧
      ∀ p ∉ Region.ofRect pb.getRect, frame' (p + d) = frame (p + d)

theorem roundTrips_of_depicts {encoder : PreparedBuffer (RawPixel k) → Except Fault (List Byte)}
    (h : ∀ pb, ∃ tiles, tiles.map Prod.fst = pb.getRect.tiles 16 ∧ DepictsAll pb tiles ∧
      encoder pb = .ok (writeTiles {} tiles)) : RoundTrips k encoder := by
  intro pb d frame
  obtain ⟨tiles, htiles, hall, hencode⟩ := h pb
  obtain ⟨hread, frame', hdecode, hin, hout⟩ := hextile_format (κ := Empty) htiles hall d frame
  exact ⟨writeTiles {} tiles, frame', hencode, hread, hdecode, hin, hout⟩

/-- **Hextile round trip.** For each pixel width both encoders write what the one
decoder turns back into the image. -/
theorem hextile_round_trip (width : PixelWidth) :
    RoundTrips width.bytes (hextileEncode width) ∧
      RoundTrips width.bytes (hextileEncodeBetter width) :=
  ⟨roundTrips_of_depicts (hextileEncode_depicts width),
    roundTrips_of_depicts (hextileEncodeBetter_depicts width)⟩

end KasmVNC.Rfb
