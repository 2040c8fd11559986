import KasmVNC.Lib.Attempt
import KasmVNC.Rfb.Hextile
import KasmVNC.Rfb.PixelFormat
import Mathlib.Data.List.TakeWhile

/-!
# The plain hextile encoder

`hextileEncode` takes the more frequent colour of a tile as the background and
goes through the other pixels row by row: each one starts a rectangle that grows
to the right first and then downwards, and what it covers below the row becomes
background. The bytes go into a buffer of the size of a raw tile, and a tile that
gets longer than its raw pixels is sent raw instead. Writing past the buffer and a
subrect count past a byte are faults of the model, and there are none.
-/

namespace KasmVNC.Rfb

open KasmVNC.Lib HextileTile

variable {k : ℕ}

/-! ## Looking at a tile -/

/-- `hextileTestTileType`: the loop that counts two colours, until it meets a third. -/
def countColours (pix1 pix2 : RawPixel k) : List (RawPixel k) → ℕ → ℕ → ℕ × ℕ × Bool
  | [], count1, count2 => (count1, count2, false)
  | p :: ps, count1, count2 =>
    if p = pix1 then countColours pix1 pix2 ps (count1 + 1) count2
    else if p = pix2 then countColours pix1 pix2 ps count1 (count2 + 1)
    else (count1, count2, true)

/-- The outcome of `hextileTestTileType`. -/
structure TileTest (k : ℕ) where
  tileType : Byte := 0
  bg : RawPixel k := default
  fg : RawPixel k := default

def hextileTestTileType : List (RawPixel k) → TileTest k
  | [] => {}
  | pix1 :: rest =>
    match rest.dropWhile (· = pix1) with
    | [] => { bg := pix1 }
    | pix2 :: rest' =>
      let counts := countColours pix1 pix2 rest'
        ((rest.takeWhile (· = pix1)).length + 1) 1
      let tileType :=
        if counts.2.2 then hextileAnySubrects ||| hextileSubrectsColoured
        else hextileAnySubrects
      if counts.1 ≥ counts.2.1 then ⟨tileType, pix1, pix2⟩ else ⟨tileType, pix2, pix1⟩

/-- `sw`: as far as the colour goes on in the row. -/
def subrectWidth (w : ℕ) (data : Block (RawPixel k)) (x y : ℕ) : ℕ :=
  ((List.range' (x + 1) (w - (x + 1))).takeWhile fun p => data p y = data x y).length + 1

/-- `sh`: as long as whole rows of that width have the colour. -/
def subrectHeight (h : ℕ) (data : Block (RawPixel k)) (x y sw : ℕ) : ℕ :=
  ((List.range' (y + 1) (h - (y + 1))).takeWhile fun q =>
    ∀ p ∈ List.range' x sw, data p q = data x y).length + 1

/-- The rectangle that starts at a pixel. -/
def findSubrect (w h : ℕ) (data : Block (RawPixel k)) (x y : ℕ) : Subrect (RawPixel k) where
  x := x
  y := y
  w := subrectWidth w data x y
  h := subrectHeight h data x y (subrectWidth w data x y)
  colour := data x y

/-! ## Encoding a tile -/

/-- The local variables of `hextileEncodeTile`. `encoded` is what comes after the
count. -/
structure TileState (k : ℕ) where
  data : Block (RawPixel k)
  nSubrects : ℕ
  encoded : List Byte

section EncodeTile

variable (k) in
/-- Writing `n` bytes behind the count, into a buffer for 16 by 16 pixels. -/
def writeEncoded (encoded bytes : List Byte) : Except Fault (List Byte) :=
  (require (1 + encoded.length + bytes.length ≤ 256 * k)).map fun _ => encoded ++ bytes

variable (w h : ℕ) (coloured : Bool) (bg : RawPixel k)

/-- The colour of a rectangle, if rectangles are coloured. -/
def encodeColour (s : Subrect (RawPixel k)) (encoded : List Byte) : Attempt (List Byte) :=
  if coloured then
    if 1 + encoded.length + k > w * h * k then .ok none
    else (writeEncoded k encoded s.colour.val).map some
  else .ok (some encoded)

/-- Position and size of a rectangle. -/
def encodeCoords (s : Subrect (RawPixel k)) (encoded : List Byte) : Attempt (List Byte) :=
  if 1 + encoded.length + 2 > w * h * k then .ok none
  else (writeEncoded k encoded (subrectCoords s)).map some

/-- The pixels below the first row of a rectangle become background. -/
def eraseBelow (s : Subrect (RawPixel k)) (data : Block (RawPixel k)) : Block (RawPixel k) :=
  Subrect.paint ⟨s.x, s.y + 1, s.w, s.h - 1, bg⟩ data

/-- What happens to one rectangle. -/
def encodeSubrect (s : Subrect (RawPixel k)) (st : TileState k) : Attempt (TileState k) :=
  match require (st.nSubrects < 255) with
  | .error e => .error e
  | .ok () =>
    (encodeColour w h coloured s st.encoded).andThen fun encoded =>
      (encodeCoords w h s encoded).andThen fun encoded =>
        .ok (some ⟨eraseBelow bg s st.data, st.nSubrects + 1, encoded⟩)

/-- The body of the inner loop: the number of columns to go on, and the state. -/
def encodePixel (y x : ℕ) (st : TileState k) : Attempt (ℕ × TileState k) :=
  if st.data x y = bg then .ok (some (1, st))
  else
    (encodeSubrect w h coloured bg (findSubrect w h st.data x y) st).andThen fun st' =>
      .ok (some ((findSubrect w h st.data x y).w, st'))

def encodeRow (y : ℕ) : TileState k → Attempt (TileState k) :=
  Attempt.loopFrom 0 w (encodePixel w h coloured bg y)

/-- `hextileEncodeTile`: the count and the rectangles. To give up is to return -1. -/
def hextileEncodeTile (data : Block (RawPixel k)) : Attempt (List Byte) :=
  (Attempt.eachFrom 0 h (encodeRow w h coloured bg) ⟨data, 0, []⟩).andThen fun st =>
    .ok (some (BitVec.ofNat 8 st.nSubrects :: st.encoded))

end EncodeTile

/-! ## The encoder -/

/-- The body of the loop over the tiles. -/
def hextileEncodeStep (pb : PreparedBuffer (RawPixel k)) (old : OldColours k) (t : Rect) :
    Except Fault (List Byte × OldColours k) :=
  let buf := pb.getImage t
  let test := hextileTestTileType (raster t.cols t.rows buf)
  let bgNamed := old.specifyBg test.bg test.tileType
  if bgNamed.1 &&& hextileAnySubrects ≠ 0 then
    let named := bgNamed.2.specifyFg test.fg bgNamed.1
    match hextileEncodeTile t.cols t.rows (named.1 &&& hextileSubrectsColoured ≠ 0) test.bg buf with
    | .error e => .error e
    | .ok none => .ok (writeHextileRaw (raster t.cols t.rows buf), {})
    | .ok (some encoded) => .ok (writeHextileTile named.1 test.bg test.fg encoded, named.2)
  else .ok (writeHextileTile bgNamed.1 test.bg test.fg [], bgNamed.2)

/-- Go through tiles with a step that writes one and updates the old colours. -/
def encodeTiles (step : OldColours k → Rect → Except Fault (List Byte × OldColours k)) :
    OldColours k → List Rect → Except Fault (List Byte)
  | _, [] => .ok []
  | old, t :: ts => do
      let res ← step old t
      let rest ← encodeTiles step res.2 ts
      .ok (res.1 ++ rest)

/-- `hextileEncode` -/
def hextileEncode (width : PixelWidth) (pb : PreparedBuffer (RawPixel width.bytes)) :
    Except Fault (List Byte) :=
  encodeTiles (hextileEncodeStep pb) {} (pb.getRect.tiles 16)

/-! ## The rectangles that are found -/

section FindSubrect

variable {w h x y : ℕ} (data : Block (RawPixel k))

theorem subrectWidth_le (hx : x < w) : x + subrectWidth w data x y ≤ w := by
  have hle := (takeWhile_range' (P := fun p => data p y = data x y) (m := w - (x + 1))
    (a := x + 1)).1
  unfold subrectWidth
  omega

theorem subrectHeight_le (sw : ℕ) (hy : y < h) : y + subrectHeight h data x y sw ≤ h := by
  have hle := (takeWhile_range' (P := fun q => ∀ p ∈ List.range' x sw, data p q = data x y)
    (m := h - (y + 1)) (a := y + 1)).1
  unfold subrectHeight
  omega

theorem subrectWidth_eq {p : ℕ} (hlo : x ≤ p) (hhi : p < x + subrectWidth w data x y) :
    data p y = data x y := by
  rcases Nat.eq_or_lt_of_le hlo with rfl | hlt
  · rfl
  · unfold subrectWidth at hhi
    have hrow := (takeWhile_range' (P := fun p => data p y = data x y) (m := w - (x + 1))
      (a := x + 1)).2 p hlt (by omega)
    exact of_decide_eq_true hrow

theorem subrectHeight_eq {sw p q : ℕ} (hplo : x ≤ p) (hphi : p < x + sw) (hlo : y < q)
    (hhi : q < y + subrectHeight h data x y sw) : data p q = data x y := by
  unfold subrectHeight at hhi
  have hrow := (takeWhile_range' (P := fun q => ∀ p ∈ List.range' x sw, data p q = data x y)
    (m := h - (y + 1)) (a := y + 1)).2 q hlo (by omega)
  exact of_decide_eq_true hrow p (List.mem_range'_1.mpr ⟨hplo, hphi⟩)

theorem findSubrect_fits (hx : x < w) (hy : y < h) : Fits w h (findSubrect w h data x y) :=
  ⟨Nat.succ_pos _, Nat.succ_pos _, subrectWidth_le data hx, subrectHeight_le data _ hy⟩

theorem findSubrect_shows : (findSubrect w h data x y).Shows data := by
  rintro p q ⟨⟨hplo, hphi⟩, hqlo, hqhi⟩
  rcases Nat.eq_or_lt_of_le hqlo with heq | hbelow
  · rw [← heq]
    exact subrectWidth_eq data hplo hphi
  · exact subrectHeight_eq data hplo hphi hbelow hqhi

theorem findSubrect_contains : (findSubrect w h data x y).Contains x y :=
  ⟨⟨Nat.le_refl x, Nat.lt_add_of_pos_right (Nat.succ_pos _)⟩, Nat.le_refl y,
    Nat.lt_add_of_pos_right (Nat.succ_pos _)⟩

end FindSubrect

/-! ## The invariant of the loops -/

/-- Some rectangle of the list contains the pixel. -/
def Covered (ss : List (Subrect (RawPixel k))) (p q : ℕ) : Prop := ∃ s ∈ ss, s.Contains p q

theorem Covered.mono {ss : List (Subrect (RawPixel k))} {p q : ℕ} (h : Covered ss p q)
    (s : Subrect (RawPixel k)) : Covered (ss ++ [s]) p q := by
  obtain ⟨t, ht, hcont⟩ := h
  exact ⟨t, List.mem_append_left _ ht, hcont⟩

theorem covered_last {ss : List (Subrect (RawPixel k))} {s : Subrect (RawPixel k)} {p q : ℕ}
    (h : s.Contains p q) : Covered (ss ++ [s]) p q :=
  ⟨s, List.mem_append_right _ List.mem_cons_self, h⟩

/-- What the encoder knows about the tile before it goes through it. -/
structure TileFacts (w h : ℕ) (f : Block (RawPixel k)) (coloured : Bool) (bg fg : RawPixel k) :
    Prop where
  width : w ≤ 16
  height : h ≤ 16
  twoColours : coloured = false → ∀ x < w, ∀ y < h, f x y = bg ∨ f x y = fg
  fewPixels : coloured = false → (raster w h f).countP (· ≠ bg) ≤ 128

/-- Where the loops are: the rectangles found so far cover all pixels before the
position, and what is not in the data any more. -/
structure Progress (w h : ℕ) (f : Block (RawPixel k)) (coloured : Bool) (bg fg : RawPixel k)
    (x y : ℕ) (ss : List (Subrect (RawPixel k))) (st : TileState k) : Prop where
  encoded : st.encoded = ss.flatMap (subrectBytes coloured)
  count : st.nSubrects = ss.length
  fits : ∀ s ∈ ss, Fits w h s
  shows : ∀ s ∈ ss, s.Shows f
  foreground : coloured = false → ∀ s ∈ ss, s.colour = fg
  data : ∀ p < w, ∀ q < h, st.data p q = f p q ∨ (st.data p q = bg ∧ Covered ss p q)
  visited : ∀ p < w, ∀ q < h, (q < y ∨ q = y ∧ p < x) → f p q = bg ∨ Covered ss p q
  few : ss.length ≤ countBefore (· ≠ bg) f w x y
  size : ss ≠ [] → 1 + st.encoded.length ≤ w * h * k

section Loops

variable {w h x y : ℕ} {f : Block (RawPixel k)} {coloured : Bool} {bg fg : RawPixel k}
  {ss : List (Subrect (RawPixel k))} {st : TileState k}

theorem length_subrectBytes (s : Subrect (RawPixel k)) :
    (subrectBytes coloured s).length = (if coloured = true then k else 0) + 2 := by
  rw [subrectBytes, List.length_append, length_pixelIf]
  rfl

/-- There are never many rectangles: coloured ones take up more bytes than a pixel, and
otherwise each one starts at another pixel of the rarer colour. -/
theorem Progress.length_lt (hk : k ≤ 4) (hfacts : TileFacts w h f coloured bg fg)
    (hp : Progress w h f coloured bg fg x y ss st)
    (hbefore : countBefore (· ≠ bg) f w x y ≤ (raster w h f).countP (· ≠ bg)) :
    ss.length < 255 := by
  by_cases hcol : coloured = true
  · by_cases hss : ss = []
    · rw [hss]
      exact Nat.succ_pos 254
    · have hsize := hp.size hss
      have hlen : (ss.flatMap (subrectBytes coloured)).length = ss.length * (k + 2) := by
        refine length_flatMap_of_length fun s _ => ?_
        rw [length_subrectBytes, if_pos hcol]
      have harea : w * h * k ≤ 256 * k :=
        Nat.mul_le_mul_right k (Nat.mul_le_mul hfacts.width hfacts.height)
      rw [hp.encoded, hlen] at hsize
      by_contra hmany
      have hmul : 255 * (k + 2) ≤ ss.length * (k + 2) :=
        Nat.mul_le_mul_right _ (not_lt.mp hmany)
      omega
  · have hfew := hfacts.fewPixels (Bool.eq_false_iff.mpr hcol)
    have hss := hp.few
    omega

/-- The count still fits a byte when a rectangle is added. -/
theorem Progress.count_lt (hk : k ≤ 4) (hfacts : TileFacts w h f coloured bg fg)
    (hp : Progress w h f coloured bg fg x y ss st) (hx : x ≤ w) (hy : y < h) :
    st.nSubrects < 255 := by
  rw [hp.count]
  exact hp.length_lt hk hfacts (countBefore_le hx hy)

theorem ends_encodeColour (hfacts : TileFacts w h f coloured bg fg) (s : Subrect (RawPixel k))
    (encoded : List Byte) :
    Ends (encodeColour w h coloured s encoded) fun encoded' =>
      encoded' = encoded ++ if coloured then s.colour.val else [] := by
  have harea : w * h * k ≤ 256 * k :=
    Nat.mul_le_mul_right k (Nat.mul_le_mul hfacts.width hfacts.height)
  unfold encodeColour
  by_cases hcol : coloured = true
  · rw [if_pos hcol]
    by_cases hlong : 1 + encoded.length + k > w * h * k
    · rw [if_pos hlong]
      exact Ends.givesUp
    · rw [if_neg hlong, writeEncoded, require_ok (by rw [s.colour.property]; omega)]
      refine Or.inr ⟨_, rfl, ?_⟩
      rw [if_pos hcol]
  · rw [if_neg hcol]
    refine Ends.done ?_
    rw [if_neg hcol, List.append_nil]

theorem ends_encodeCoords (hfacts : TileFacts w h f coloured bg fg) (s : Subrect (RawPixel k))
    (encoded : List Byte) :
    Ends (encodeCoords w h s encoded) fun encoded' =>
      encoded' = encoded ++ subrectCoords s ∧ 1 + encoded'.length ≤ w * h * k := by
  have harea : w * h * k ≤ 256 * k :=
    Nat.mul_le_mul_right k (Nat.mul_le_mul hfacts.width hfacts.height)
  unfold encodeCoords
  by_cases hlong : 1 + encoded.length + 2 > w * h * k
  · rw [if_pos hlong]
    exact Ends.givesUp
  · have hlen : (subrectCoords s).length = 2 := rfl
    rw [if_neg hlong, writeEncoded, require_ok (by omega)]
    refine Or.inr ⟨_, rfl, rfl, ?_⟩
    rw [List.length_append]
    omega

/-- One rectangle more. The pixel where it starts is not background in the data, so
neither it nor the others of its colour have been erased. -/
theorem ends_encodeSubrect (hk : k ≤ 4) (hfacts : TileFacts w h f coloured bg fg)
    (hp : Progress w h f coloured bg fg x y ss st) (hx : x < w) (hy : y < h)
    (hbg : st.data x y ≠ bg) :
    Ends (encodeSubrect w h coloured bg (findSubrect w h st.data x y) st)
      (Progress w h f coloured bg fg (x + (findSubrect w h st.data x y).w) y
        (ss ++ [findSubrect w h st.data x y])) := by
  have hcount := hp.count_lt hk hfacts hx.le hy
  have hfits := findSubrect_fits st.data hx hy
  have hshows := findSubrect_shows (w := w) (h := h) (x := x) (y := y) st.data
  have hcontains := findSubrect_contains (w := w) (h := h) (x := x) (y := y) st.data
  generalize hs : findSubrect w h st.data x y = s at hfits hshows hcontains ⊢
  have hcolour : s.colour = st.data x y := by rw [← hs]; rfl
  have hsx : s.x = x := by rw [← hs]; rfl
  have hsy : s.y = y := by rw [← hs]; rfl
  -- in the tile, too, the rectangle has one colour
  have hkept : ∀ p q, s.Contains p q → p < w ∧ q < h ∧ f p q = s.colour := by
    intro p q hcont
    obtain ⟨⟨hplo, hphi⟩, hqlo, hqhi⟩ := hcont
    have hpw : p < w := lt_of_lt_of_le hphi hfits.right
    have hqh : q < h := lt_of_lt_of_le hqhi hfits.bottom
    refine ⟨hpw, hqh, ?_⟩
    have hdata := hshows p q ⟨⟨hplo, hphi⟩, hqlo, hqhi⟩
    rcases hp.data p hpw q hqh with hsame | ⟨herased, -⟩
    · rw [← hsame, hdata]
    · rw [hdata, hcolour] at herased
      exact absurd herased hbg
  unfold encodeSubrect
  rw [require_ok hcount]
  refine (ends_encodeColour hfacts s st.encoded).andThen fun encoded hencoded => ?_
  refine (ends_encodeCoords hfacts s encoded).andThen fun encoded' hencoded' => ?_
  obtain ⟨hencoded', hsize⟩ := hencoded'
  refine Ends.done ?_
  constructor
  · show encoded' = _
    rw [hencoded', hencoded, hp.encoded, List.flatMap_append, List.flatMap_singleton,
      subrectBytes, List.append_assoc]
  · show st.nSubrects + 1 = _
    rw [hp.count, List.length_append, List.length_singleton]
  · rw [List.forall_mem_append, List.forall_mem_singleton]
    exact ⟨hp.fits, hfits⟩
  · rw [List.forall_mem_append, List.forall_mem_singleton]
    exact ⟨hp.shows, fun p q hcont => (hkept p q hcont).2.2⟩
  · intro hcol
    rw [List.forall_mem_append, List.forall_mem_singleton]
    refine ⟨hp.foreground hcol, ?_⟩
    obtain ⟨-, -, hfx⟩ := hkept x y hcontains
    rcases hfacts.twoColours hcol x hx y hy with h | h
    · exact absurd (hcolour.symm.trans (hfx.symm.trans h)) hbg
    · exact hfx.symm.trans h
  · intro p hpw q hqh
    show eraseBelow bg s st.data p q = f p q ∨
      (eraseBelow bg s st.data p q = bg ∧ Covered (ss ++ [s]) p q)
    unfold eraseBelow Subrect.paint
    by_cases hbelow : (⟨s.x, s.y + 1, s.w, s.h - 1, bg⟩ : Subrect (RawPixel k)).Contains p q
    · rw [if_pos hbelow]
      obtain ⟨hcols, hqlo, hqhi⟩ := hbelow
      refine Or.inr ⟨rfl, covered_last ⟨hcols, ?_⟩⟩
      dsimp only at hqlo hqhi
      omega
    · rw [if_neg hbelow]
      exact (hp.data p hpw q hqh).imp_right fun h => ⟨h.1, h.2.mono s⟩
  · intro p hpw q hqh hbefore
    by_cases hnew : q = y ∧ x ≤ p
    · obtain ⟨rfl, hxp⟩ := hnew
      refine Or.inr (covered_last ⟨⟨by omega, by omega⟩, by omega, ?_⟩)
      have := hfits.hpos
      omega
    · refine (hp.visited p hpw q hqh ?_).imp_right fun h => h.mono s
      omega
  · have hnext : x < x + s.w := Nat.lt_add_of_pos_right hfits.wpos
    have hlt := countBefore_lt (P := fun c => decide (c ≠ bg)) (f := f) (w := w) (y := y) hnext
      (decide_eq_true (by rw [(hkept x y hcontains).2.2, hcolour]; exact hbg))
    rw [List.length_append, List.length_singleton]
    exact le_trans (Nat.succ_le_succ hp.few) hlt
  · exact fun _ => hsize

/-- A background pixel is passed over. -/
theorem Progress.skip (hp : Progress w h f coloured bg fg x y ss st) (hx : x < w) (hy : y < h)
    (hbg : st.data x y = bg) : Progress w h f coloured bg fg (x + 1) y ss st where
  encoded := hp.encoded
  count := hp.count
  fits := hp.fits
  shows := hp.shows
  foreground := hp.foreground
  data := hp.data
  visited := by
    intro p hpw q hqh hbefore
    by_cases hhere : q = y ∧ p = x
    · obtain ⟨rfl, rfl⟩ := hhere
      rcases hp.data p hpw q hqh with hsame | ⟨-, hcovered⟩
      · exact Or.inl (hsame.symm.trans hbg)
      · exact Or.inr hcovered
    · exact hp.visited p hpw q hqh (by omega)
  few := le_trans hp.few (countBefore_mono (Nat.le_succ x))
  size := hp.size

theorem Progress.nextRow (hp : Progress w h f coloured bg fg x y ss st) (hx : x = w) :
    Progress w h f coloured bg fg 0 (y + 1) ss st where
  encoded := hp.encoded
  count := hp.count
  fits := hp.fits
  shows := hp.shows
  foreground := hp.foreground
  data := hp.data
  visited := fun p hpw q hqh hbefore => hp.visited p hpw q hqh (by omega)
  few := by
    rw [← countBefore_row]
    exact hx ▸ hp.few
  size := hp.size

theorem ends_encodePixel (hk : k ≤ 4) (hfacts : TileFacts w h f coloured bg fg)
    (hp : Progress w h f coloured bg fg x y ss st) (hx : x < w) (hy : y < h) :
    Ends (encodePixel w h coloured bg y x st) fun r => (0 < r.1 ∧ x + r.1 ≤ w) ∧
      ∃ ss', Progress w h f coloured bg fg (x + r.1) y ss' r.2 := by
  unfold encodePixel
  by_cases hbg : st.data x y = bg
  · rw [if_pos hbg]
    exact Ends.done ⟨⟨Nat.one_pos, hx⟩, ss, hp.skip hx hy hbg⟩
  · rw [if_neg hbg]
    have hfits := findSubrect_fits st.data hx hy
    exact (ends_encodeSubrect hk hfacts hp hx hy hbg).andThen fun st' hp' =>
      Ends.done ⟨⟨hfits.wpos, hfits.right⟩, _, hp'⟩

theorem ends_encodeRow (hk : k ≤ 4) (hfacts : TileFacts w h f coloured bg fg) (hy : y < h)
    (hp : Progress w h f coloured bg fg 0 y ss st) :
    Ends (encodeRow w h coloured bg y st) fun st' =>
      ∃ ss', Progress w h f coloured bg fg 0 (y + 1) ss' st' := by
  have hrow : Ends (encodeRow w h coloured bg y st) fun st' =>
      ∃ ss', Progress w h f coloured bg fg w y ss' st' :=
    Ends.loopFrom (fun x st => ∃ ss', Progress w h f coloured bg fg x y ss' st) (Nat.zero_le w)
      ⟨ss, hp⟩ fun x hx st ⟨ss, hp⟩ => ends_encodePixel hk hfacts hp hx hy
  exact hrow.mono fun st' ⟨ss', hp'⟩ => ⟨ss', hp'.nextRow rfl⟩

/-- **One tile.** The encoder gives up, or its bytes are those of rectangles that
depict the tile. -/
theorem ends_hextileEncodeTile (hk : k ≤ 4) (hfacts : TileFacts w h f coloured bg fg) :
    Ends (hextileEncodeTile w h coloured bg f) fun bytes =>
      ∃ ss, bytes = BitVec.ofNat 8 ss.length :: ss.flatMap (subrectBytes coloured) ∧
        Depicts w h f (subrects coloured bg fg ss) := by
  have hstart : Progress w h f coloured bg fg 0 0 [] ⟨f, 0, []⟩ :=
    { encoded := rfl
      count := rfl
      fits := fun _ hs => nomatch hs
      shows := fun _ hs => nomatch hs
      foreground := fun _ _ hs => nomatch hs
      data := fun _ _ _ _ => Or.inl rfl
      visited := fun _ _ _ _ hbefore => by omega
      few := Nat.zero_le _
      size := fun h => absurd rfl h }
  unfold hextileEncodeTile
  have hrows := Ends.eachFrom (fun y st => ∃ ss, Progress w h f coloured bg fg 0 y ss st)
    (Nat.zero_le h) ⟨[], hstart⟩ fun y hy st ⟨ss, hp⟩ => ends_encodeRow hk hfacts hy hp
  refine hrows.andThen fun st ⟨ss, hp⟩ => Ends.done ⟨ss, ?_, ?_⟩
  · rw [hp.count, hp.encoded]
  · refine .subrects ?_ hp.fits hp.shows hp.foreground fun p hpw q hqh =>
      hp.visited p hpw q hqh (Or.inl hqh)
    have hbefore : countBefore (· ≠ bg) f w 0 h = (raster w h f).countP (· ≠ bg) := by
      simp [countBefore]
    exact Nat.lt_of_lt_of_le (hp.length_lt hk hfacts hbefore.le) (by decide)

end Loops

/-! ## What the look at a tile tells -/

section CountNe

variable {α : Type*} [DecidableEq α] {c d : α} {l : List α}

theorem countP_ne_cons_self : (c :: l).countP (· ≠ c) = l.countP (· ≠ c) :=
  List.countP_cons_of_neg (by simp)

theorem countP_ne_cons (h : d ≠ c) : (d :: l).countP (· ≠ c) = l.countP (· ≠ c) + 1 :=
  List.countP_cons_of_pos (by simpa using h)

theorem countP_ne_of_forall_eq (h : ∀ x ∈ l, x = c) : l.countP (· ≠ c) = 0 :=
  List.countP_eq_zero.mpr fun x hx => by simpa using h x hx

theorem countP_ne_of_forall_ne (h : ∀ x ∈ l, x ≠ c) : l.countP (· ≠ c) = l.length :=
  List.countP_eq_length.mpr fun x hx => by simpa using h x hx

end CountNe

/-- Without a third colour the counts are those of the other colour's absence. -/
theorem countColours_spec {pix1 pix2 : RawPixel k} (hne : pix2 ≠ pix1) :
    ∀ {ps : List (RawPixel k)} {count1 count2 : ℕ},
      (countColours pix1 pix2 ps count1 count2).2.2 = false →
      (∀ p ∈ ps, p = pix1 ∨ p = pix2) ∧
        (countColours pix1 pix2 ps count1 count2).1 = count1 + ps.countP (· ≠ pix2) ∧
        (countColours pix1 pix2 ps count1 count2).2.1 = count2 + ps.countP (· ≠ pix1) ∧
        ps.countP (· ≠ pix2) + ps.countP (· ≠ pix1) = ps.length
  | [], count1, count2, _ => ⟨(fun _ hp => nomatch hp), rfl, rfl, rfl⟩
  | p :: ps, count1, count2, hthird => by
    rw [countColours] at hthird ⊢
    by_cases h1 : p = pix1
    · rw [if_pos h1] at hthird ⊢
      obtain ⟨hall, hc1, hc2, hsum⟩ := countColours_spec hne hthird
      have hp2 : p ≠ pix2 := fun h => hne (h.symm.trans h1)
      subst h1
      rw [List.forall_mem_cons, hc1, hc2, countP_ne_cons hp2, countP_ne_cons_self,
        List.length_cons]
      exact ⟨⟨Or.inl rfl, hall⟩, by omega, rfl, by omega⟩
    · rw [if_neg h1] at hthird ⊢
      by_cases h2 : p = pix2
      · rw [if_pos h2] at hthird ⊢
        obtain ⟨hall, hc1, hc2, hsum⟩ := countColours_spec hne hthird
        subst h2
        rw [List.forall_mem_cons, hc1, hc2, countP_ne_cons h1, countP_ne_cons_self,
          List.length_cons]
        exact ⟨⟨Or.inr rfl, hall⟩, rfl, by omega, by omega⟩
      · rw [if_neg h2] at hthird
        cases hthird

/-- What `hextileTestTileType` says about a list of pixels. -/
inductive Tested (pixels : List (RawPixel k)) : TileTest k → Prop
  | solid {bg : RawPixel k} (hall : ∀ c ∈ pixels, c = bg) : Tested pixels { bg := bg }
  | two {bg fg : RawPixel k} (hall : ∀ c ∈ pixels, c = bg ∨ c = fg)
      (hmost : 2 * pixels.countP (· ≠ bg) ≤ pixels.length) :
      Tested pixels ⟨hextileAnySubrects, bg, fg⟩
  | more {bg fg : RawPixel k} :
      Tested pixels ⟨hextileAnySubrects ||| hextileSubrectsColoured, bg, fg⟩

theorem tested : ∀ {pixels : List (RawPixel k)}, pixels ≠ [] →
    Tested pixels (hextileTestTileType pixels)
  | [], h => absurd rfl h
  | pix1 :: rest, _ => by
    have hsplit := List.takeWhile_append_dropWhile (p := fun p => decide (p = pix1)) (l := rest)
    have hsame : ∀ c ∈ rest.takeWhile (fun p => decide (p = pix1)), c = pix1 := fun c hc =>
      of_decide_eq_true (List.mem_takeWhile_imp (p := fun p => decide (p = pix1)) hc)
    rw [hextileTestTileType]
    cases hdrop : rest.dropWhile (fun p => decide (p = pix1)) with
    | nil =>
      rw [hdrop, List.append_nil] at hsplit
      refine .solid ?_
      rw [List.forall_mem_cons, ← hsplit]
      exact ⟨rfl, hsame⟩
    | cons pix2 rest' =>
      rw [hdrop] at hsplit
      have hne : pix2 ≠ pix1 := by
        have hhead := List.head?_dropWhile_not (fun p => decide (p = pix1)) rest
        rw [hdrop] at hhead
        simpa using hhead
      generalize rest.takeWhile (fun p => decide (p = pix1)) = same at hsplit hsame ⊢
      dsimp only
      generalize hcounts : countColours pix1 pix2 rest' _ 1 = counts
      cases hthird : counts.2.2 with
      | true =>
        rw [if_pos rfl]
        split <;> exact .more
      | false =>
        rw [← hcounts] at hthird
        obtain ⟨hall, hc1, hc2, hsum⟩ := countColours_spec hne hthird
        rw [hcounts] at hc1 hc2
        rw [if_neg Bool.false_ne_true]
        -- the pixels in front of the second colour all have the first one
        have hcount2 : (pix1 :: rest).countP (· ≠ pix2) =
            same.length + 1 + rest'.countP (· ≠ pix2) := by
          rw [countP_ne_cons hne.symm, ← hsplit, List.countP_append, countP_ne_cons_self,
            countP_ne_of_forall_ne fun c hc => (hsame c hc).trans_ne hne.symm]
          omega
        have hcount1 : (pix1 :: rest).countP (· ≠ pix1) = 1 + rest'.countP (· ≠ pix1) := by
          rw [countP_ne_cons_self, ← hsplit, List.countP_append, countP_ne_cons hne,
            countP_ne_of_forall_eq hsame]
          omega
        have hlength : (pix1 :: rest).length = same.length + 1 + 1 + rest'.length := by
          rw [← hsplit, List.length_cons, List.length_append, List.length_cons]
          omega
        have hcolours : ∀ c ∈ pix1 :: rest, c = pix1 ∨ c = pix2 := by
          rw [← hsplit, List.forall_mem_cons, List.forall_mem_append,
            List.forall_mem_cons]
          exact ⟨Or.inl rfl, fun c hc => Or.inl (hsame c hc), Or.inr rfl, hall⟩
        split
        · exact .two hcolours (by omega)
        · exact .two (fun c hc => (hcolours c hc).symm) (by omega)

/-! ## The whole encoder -/

/-- The step writes tiles that say what the buffer looks like. -/
def StepDepicts (pb : PreparedBuffer (RawPixel k))
    (step : OldColours k → Rect → Except Fault (List Byte × OldColours k)) : Prop :=
  ∀ old, ∀ t ∈ pb.getRect.tiles 16, ∃ tile : HextileTile k,
    step old t = .ok (tile.write old) ∧ Depicts t.cols t.rows (pb.getImage t) tile

theorem encodeTiles_depicts {pb : PreparedBuffer (RawPixel k)}
    {step : OldColours k → Rect → Except Fault (List Byte × OldColours k)}
    (hstep : StepDepicts pb step) :
    ∀ {ts : List Rect} (old : OldColours k), (∀ t ∈ ts, t ∈ pb.getRect.tiles 16) →
      ∃ tiles, tiles.map Prod.fst = ts ∧ DepictsAll pb tiles ∧
        encodeTiles step old ts = .ok (writeTiles old tiles)
  | [], _, _ => ⟨[], rfl, (fun _ h => nomatch h), rfl⟩
  | t :: ts, old, hts => by
    have ht := hts t List.mem_cons_self
    obtain ⟨tile, htile, hdepicts⟩ := hstep old t ht
    obtain ⟨tiles, hfst, hall, hrest⟩ := encodeTiles_depicts hstep (tile.write old).2
      fun u hu => hts u (List.mem_cons_of_mem t hu)
    refine ⟨(t, tile) :: tiles, ?_, List.forall_mem_cons.mpr ⟨⟨ht, hdepicts⟩, hall⟩, ?_⟩
    · rw [List.map_cons, hfst]
    · rw [encodeTiles, htile]
      show (encodeTiles step (tile.write old).2 ts).bind _ = _
      rw [hrest]
      rfl

/-- The colours a tile with subrects names. -/
theorem specify_subrects (old : OldColours k) (coloured : Bool) (bg fg : RawPixel k) :
    ∃ (b f : Bool) (new : OldColours k),
      old.specifyBg bg (hextileAnySubrects ||| if coloured then hextileSubrectsColoured else 0) =
        (subrectsType coloured b false, { old with bg := some bg }) ∧
      ({ old with bg := some bg } : OldColours k).specifyFg fg (subrectsType coloured b false) =
        (subrectsType coloured b f, new) ∧
      ∀ ss, (subrects coloured bg fg ss).write old =
        (writeHextileTile (subrectsType coloured b f) bg fg
          (BitVec.ofNat 8 ss.length :: ss.flatMap (subrectBytes coloured)), new) := by
  obtain ⟨b, -, hbspec⟩ := specifyBg_spec old bg
    (hextileAnySubrects ||| if coloured then hextileSubrectsColoured else 0)
  obtain ⟨f, -, hfspec⟩ := specifyFg_spec { old with bg := some bg } fg coloured b
  have hbase : (hextileAnySubrects ||| if coloured then hextileSubrectsColoured else 0) |||
      (if b then hextileBgSpecified else 0) = subrectsType coloured b false := by
    cases b <;> cases coloured <;> rfl
  rw [hbase] at hbspec
  refine ⟨b, f, _, hbspec, hfspec, fun ss => ?_⟩
  rw [HextileTile.write, hbspec]
  dsimp only
  rw [hfspec]

theorem decide_coloured (coloured b f : Bool) :
    decide (subrectsType coloured b f &&& hextileSubrectsColoured ≠ 0) = coloured := by
  rw [Bool.eq_iff_iff, decide_eq_true_iff]
  exact (subrectsType_flags coloured b f).2.2.2.2

/-- The case of a tile with subrects in the step: its bytes, or raw pixels. -/
theorem encodeStep_subrects {pb : PreparedBuffer (RawPixel k)} {t : Rect} (coloured : Bool)
    (hk : k ≤ 4) {old : OldColours k} {test : TileTest k}
    (htest : hextileTestTileType (raster t.cols t.rows (pb.getImage t)) = test)
    (htype : test.tileType = hextileAnySubrects ||| if coloured then hextileSubrectsColoured else 0)
    (hfacts : TileFacts t.cols t.rows (pb.getImage t) coloured test.bg test.fg) :
    ∃ tile : HextileTile k, hextileEncodeStep pb old t = .ok (tile.write old) ∧
      Depicts t.cols t.rows (pb.getImage t) tile := by
  obtain ⟨b, f, new, hbspec, hfspec, hwrite⟩ := specify_subrects old coloured test.bg test.fg
  unfold hextileEncodeStep
  dsimp only
  rw [htest, htype, hbspec]
  dsimp only
  rw [if_pos (subrectsType_flags coloured b false).2.2.2.1, hfspec]
  dsimp only
  rw [decide_coloured]
  rcases ends_hextileEncodeTile hk hfacts with hnone | ⟨bytes, hsome, ss, hbytes, hdepicts⟩
  · rw [hnone]
    exact ⟨.raw (raster t.cols t.rows (pb.getImage t)), rfl, .raw⟩
  · rw [hsome]
    refine ⟨.subrects coloured test.bg test.fg ss, ?_, hdepicts⟩
    rw [hwrite, hbytes]

theorem hextileEncodeStep_depicts (hk : k ≤ 4) (pb : PreparedBuffer (RawPixel k)) :
    StepDepicts pb (hextileEncodeStep pb) := by
  intro old t ht
  obtain ⟨⟨hwpos, hw⟩, hhpos, hh⟩ := Rect.tile_bounds (by decide) ht
  have hw16 : t.cols ≤ 16 := Nat.cast_le.mp hw
  have hh16 : t.rows ≤ 16 := Nat.cast_le.mp hh
  have hlen := length_raster t.cols t.rows (pb.getImage t)
  have hpos : raster t.cols t.rows (pb.getImage t) ≠ [] := by
    rw [← List.length_pos_iff_ne_nil, hlen]
    exact Nat.mul_pos hhpos hwpos
  have harea : t.rows * t.cols ≤ 16 * 16 := Nat.mul_le_mul hh16 hw16
  have htested := tested hpos
  generalize htest : hextileTestTileType (raster t.cols t.rows (pb.getImage t)) = test at htested
  cases htested with
  | solid hall =>
    rename_i bg
    refine ⟨.solid bg, ?_, .solid fun x hx y hy => hall _ (mem_raster.mpr ⟨x, hx, y, hy, rfl⟩)⟩
    obtain ⟨b, -, hbspec⟩ := specifyBg_spec old bg 0
    obtain ⟨-, -, -, hany⟩ := solidType_flags b
    have hzero : ∀ tileType : Byte, 0 ||| tileType = tileType := fun _ => BitVec.zero_or
    unfold hextileEncodeStep HextileTile.write
    dsimp only
    rw [htest]
    dsimp only
    rw [hbspec, hzero]
    dsimp only
    rw [if_neg hany]
  | two hall hmost =>
    refine encodeStep_subrects false hk htest rfl
      { width := hw16
        height := hh16
        twoColours := fun _ x hx y hy => hall _ (mem_raster.mpr ⟨x, hx, y, hy, rfl⟩)
        fewPixels := fun _ => ?_ }
    rw [hlen] at hmost
    dsimp only
    omega
  | more =>
    exact encodeStep_subrects true hk htest rfl
      { width := hw16
        height := hh16
        twoColours := fun h => nomatch h
        fewPixels := fun h => nomatch h }

/-- **The plain encoder.** It succeeds, and its tiles say what the buffer looks like. -/
theorem hextileEncode_depicts (width : PixelWidth) (pb : PreparedBuffer (RawPixel width.bytes)) :
    ∃ tiles, tiles.map Prod.fst = pb.getRect.tiles 16 ∧ DepictsAll pb tiles ∧
      hextileEncode width pb = .ok (writeTiles {} tiles) :=
  encodeTiles_depicts (hextileEncodeStep_depicts width.bytes_le pb) {} fun _ ht => ht

end KasmVNC.Rfb
