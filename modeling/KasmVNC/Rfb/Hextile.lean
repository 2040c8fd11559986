import KasmVNC.Lib.Checked
import KasmVNC.Rfb.Tiles

/-!
# Hextile

A rectangle is sent as tiles of at most 16 by 16 pixels. A tile is raw pixels, or
a background with one-coloured rectangles on it, and both colours may be left out
where they are those of an earlier tile. The client decodes a tile into a buffer
and first runs over the message to find out how long it is.

`HextileTile` is what a tile says, apart from how it is written. Whatever the
tiles of a buffer are taken apart into, the decoder puts together again, as long
as each of them depicts its tile.
-/

namespace KasmVNC.Rfb

open KasmVNC.Lib Reader

abbrev hextileRaw : Byte := 1
abbrev hextileBgSpecified : Byte := 2
abbrev hextileFgSpecified : Byte := 4
abbrev hextileAnySubrects : Byte := 8
abbrev hextileSubrectsColoured : Byte := 16

variable {κ : Type} {k : ℕ}

/-! ## Writing a tile -/

/-- The colours the client keeps from earlier tiles, as far as they are valid:
`oldBg` and `oldFg`. -/
structure OldColours (k : ℕ) where
  bg : Option (RawPixel k) := none
  fg : Option (RawPixel k) := none

/-- Name the background unless it is the old one. -/
def OldColours.specifyBg (old : OldColours k) (bg : RawPixel k) (tileType : Byte) :
    Byte × OldColours k :=
  if old.bg ≠ some bg then (tileType ||| hextileBgSpecified, { old with bg := some bg })
  else (tileType, old)

/-- Name the foreground unless it is the old one. Coloured rectangles make the client
forget it. -/
def OldColours.specifyFg (old : OldColours k) (fg : RawPixel k) (tileType : Byte) :
    Byte × OldColours k :=
  if tileType &&& hextileAnySubrects ≠ 0 then
    if tileType &&& hextileSubrectsColoured ≠ 0 then (tileType, { old with fg := none })
    else if old.fg ≠ some fg then (tileType ||| hextileFgSpecified, { old with fg := some fg })
    else (tileType, old)
  else (tileType, old)

/-- The writes at the end of the loop over the tiles. -/
def writeHextileTile (tileType : Byte) (bg fg : RawPixel k) (encoded : List Byte) : List Byte :=
  tileType ::
    ((if tileType &&& hextileBgSpecified ≠ 0 then bg.val else []) ++
      ((if tileType &&& hextileFgSpecified ≠ 0 then fg.val else []) ++
        if tileType &&& hextileAnySubrects ≠ 0 then encoded else []))

/-- A raw tile. -/
def writeHextileRaw (pixels : List (RawPixel k)) : List Byte :=
  hextileRaw :: pixels.flatMap (·.val)

/-- Position and size of a rectangle in two bytes. -/
def subrectCoords (s : Subrect (RawPixel k)) : List Byte :=
  [BitVec.ofNat 8 (s.x <<< 4 ||| s.y), BitVec.ofNat 8 ((s.w - 1) <<< 4 ||| (s.h - 1))]

def subrectBytes (coloured : Bool) (s : Subrect (RawPixel k)) : List Byte :=
  (if coloured then s.colour.val else []) ++ subrectCoords s

/-! ## Decoding -/

/-- A colour that is only sent under a condition. -/
def readPixelIf (c : Prop) [Decidable c] (old : RawPixel k) : Reader κ (RawPixel k) :=
  if c then readPixel k else pure old

/-- The loop over the rectangles of a tile, of `stride` columns. -/
def decodeSubrects (stride : ℕ) (coloured : Bool) :
    ℕ → (ℕ → RawPixel k) → RawPixel k → Reader κ ((ℕ → RawPixel k) × RawPixel k)
  | 0, buf, fg => pure (buf, fg)
  | n + 1, buf, fg => do
      let fg ← readPixelIf coloured fg
      let xy ← readU8
      let wh ← readU8
      let s : Subrect (RawPixel k) :=
        ⟨((xy >>> 4) &&& 15).toNat, (xy &&& 15).toNat, ((wh >>> 4) &&& 15).toNat + 1,
          (wh &&& 15).toNat + 1, fg⟩
      if s.x + s.w > 16 ∨ s.y + s.h > 16 then
        fail "HEXTILE_DECODE: Hextile out of bounds"
      else decodeSubrects stride coloured n (s.write stride buf) fg

/-- The background and the foreground of the decoder. -/
abbrev HextileColours (k : ℕ) := RawPixel k × RawPixel k

/-- The body of the loop in `hextileDecode`: the buffer for one tile of the given
size, and the colours. -/
def hextileDecodeTile (w h : ℕ) (colours : HextileColours k) :
    Reader κ ((ℕ → RawPixel k) × HextileColours k) := do
  let tileType ← readU8
  if tileType &&& hextileRaw ≠ 0 then
    let pixels ← readMany (readPixel k) (h * w)
    pure (fun i => pixels.getD i default, colours)
  else
    let bg ← readPixelIf (tileType &&& hextileBgSpecified ≠ 0) colours.1
    let fg ← readPixelIf (tileType &&& hextileFgSpecified ≠ 0) colours.2
    if tileType &&& hextileAnySubrects ≠ 0 then
      let nSubrects ← readU8
      let res ← decodeSubrects w (tileType &&& hextileSubrectsColoured ≠ 0) nSubrects.toNat
        (fun _ => bg) fg
      pure (res.1, bg, res.2)
    else pure (fun _ => bg, bg, fg)

/-- The loop over the tiles. -/
def hextileDecodeTiles : List Rect → HextileColours k → (Point → RawPixel k) →
    Reader κ (Point → RawPixel k)
  | [], _, frame => pure frame
  | t :: ts, colours, frame => do
      let res ← hextileDecodeTile t.cols t.rows colours
      hextileDecodeTiles ts res.2 (imageRect t (blockOf t.cols res.1) frame)

/-- `hextileDecode` -/
def hextileDecode (k : ℕ) (r : Rect) (frame : Point → RawPixel k) :
    Reader κ (Point → RawPixel k) :=
  hextileDecodeTiles (r.tiles 16) (default, default) frame

/-! ### Finding out the length -/

/-- The body of the loop in `HextileDecoder::readRect`: the bytes it copies. -/
def hextileReadTile (k w h : ℕ) : Reader κ (List Byte) := do
  let tileType ← readU8
  if tileType &&& hextileRaw ≠ 0 then
    let pixels ← readBytes (h * w * k)
    pure (tileType :: pixels)
  else
    let bg ← readBytes (if tileType &&& hextileBgSpecified ≠ 0 then k else 0)
    let fg ← readBytes (if tileType &&& hextileFgSpecified ≠ 0 then k else 0)
    if tileType &&& hextileAnySubrects ≠ 0 then
      let nSubrects ← readU8
      let subrects ← readBytes (nSubrects.toNat *
        (if tileType &&& hextileSubrectsColoured ≠ 0 then k + 2 else 2))
      pure (tileType :: (bg ++ (fg ++ nSubrects :: subrects)))
    else pure (tileType :: (bg ++ fg))

def hextileReadTiles (k : ℕ) : List Rect → Reader κ (List Byte)
  | [] => pure []
  | t :: ts => do
      let bytes ← hextileReadTile k t.cols t.rows
      let rest ← hextileReadTiles k ts
      pure (bytes ++ rest)

/-- `HextileDecoder::readRect` -/
def hextileReadRect (k : ℕ) (r : Rect) : Reader κ (List Byte) :=
  hextileReadTiles k (r.tiles 16)

/-! ## What a tile says -/

inductive HextileTile (k : ℕ)
  | raw (pixels : List (RawPixel k))
  | solid (bg : RawPixel k)
  | subrects (coloured : Bool) (bg fg : RawPixel k) (ss : List (Subrect (RawPixel k)))

namespace HextileTile

/-- The bytes of a tile, and the colours the client keeps. -/
def write (old : OldColours k) : HextileTile k → List Byte × OldColours k
  | raw pixels => (writeHextileRaw pixels, {})
  | solid bg =>
    let named := old.specifyBg bg 0
    (writeHextileTile named.1 bg default [], named.2)
  | subrects coloured bg fg ss =>
    let bgNamed := old.specifyBg bg
      (hextileAnySubrects ||| if coloured then hextileSubrectsColoured else 0)
    let named := bgNamed.2.specifyFg fg bgNamed.1
    (writeHextileTile named.1 bg fg
      (BitVec.ofNat 8 ss.length :: ss.flatMap (subrectBytes coloured)), named.2)

/-- A rectangle that is not empty and fits a tile. -/
structure Fits (w h : ℕ) (s : Subrect (RawPixel k)) : Prop where
  wpos : 0 < s.w
  hpos : 0 < s.h
  right : s.x + s.w ≤ w
  bottom : s.y + s.h ≤ h

/-- The tile says what the block looks like. -/
inductive Depicts (w h : ℕ) (f : Block (RawPixel k)) : HextileTile k → Prop
  | raw : Depicts w h f (raw (raster w h f))
  | solid {bg : RawPixel k} (hbg : ∀ x < w, ∀ y < h, f x y = bg) : Depicts w h f (solid bg)
  | subrects {coloured : Bool} {bg fg : RawPixel k} {ss : List (Subrect (RawPixel k))}
      (hcount : ss.length < 256) (hfits : ∀ s ∈ ss, Fits w h s) (hshows : ∀ s ∈ ss, s.Shows f)
      (hfg : coloured = false → ∀ s ∈ ss, s.colour = fg)
      (hcover : ∀ x < w, ∀ y < h, f x y = bg ∨ ∃ s ∈ ss, s.Contains x y) :
      Depicts w h f (subrects coloured bg fg ss)

/-! ## The bytes of a tile -/

/-- The type of a tile with rectangles, by what it names. -/
def subrectsType (coloured bgNamed fgNamed : Bool) : Byte :=
  hextileAnySubrects ||| (if coloured then hextileSubrectsColoured else 0) |||
    (if bgNamed then hextileBgSpecified else 0) ||| if fgNamed then hextileFgSpecified else 0

theorem subrectsType_flags : ∀ coloured bgNamed fgNamed : Bool,
    subrectsType coloured bgNamed fgNamed &&& hextileRaw = 0 ∧
      (subrectsType coloured bgNamed fgNamed &&& hextileBgSpecified ≠ 0 ↔ bgNamed = true) ∧
      (subrectsType coloured bgNamed fgNamed &&& hextileFgSpecified ≠ 0 ↔ fgNamed = true) ∧
      subrectsType coloured bgNamed fgNamed &&& hextileAnySubrects ≠ 0 ∧
      (subrectsType coloured bgNamed fgNamed &&& hextileSubrectsColoured ≠ 0 ↔
        coloured = true) := by
  decide

/-- The type of a solid tile. -/
theorem solidType_flags : ∀ named : Bool,
    ¬(if named then hextileBgSpecified else 0) &&& hextileRaw ≠ 0 ∧
      ((if named then hextileBgSpecified else 0) &&& hextileBgSpecified ≠ 0 ↔ named = true) ∧
      ¬(if named then hextileBgSpecified else 0) &&& hextileFgSpecified ≠ 0 ∧
      ¬(if named then hextileBgSpecified else 0) &&& hextileAnySubrects ≠ 0 := by
  decide

theorem specifyBg_spec (old : OldColours k) (bg : RawPixel k) (tileType : Byte) :
    ∃ named : Bool, (named = false → old.bg = some bg) ∧
      old.specifyBg bg tileType =
        (tileType ||| (if named then hextileBgSpecified else 0), { old with bg := some bg }) := by
  unfold OldColours.specifyBg
  by_cases hbg : old.bg = some bg
  · refine ⟨false, fun _ => hbg, ?_⟩
    rw [if_neg (not_not.mpr hbg), ← hbg]
    exact Prod.ext (BitVec.or_zero).symm rfl
  · refine ⟨true, (fun h => nomatch h), ?_⟩
    rw [if_pos hbg]
    rfl

theorem specifyFg_spec (old : OldColours k) (fg : RawPixel k) (coloured bgNamed : Bool) :
    ∃ named : Bool, (coloured = false → named = false → old.fg = some fg) ∧
      old.specifyFg fg (subrectsType coloured bgNamed false) =
        (subrectsType coloured bgNamed named,
          { old with fg := if coloured then none else some fg }) := by
  obtain ⟨-, -, -, hany, hcol⟩ := subrectsType_flags coloured bgNamed false
  unfold OldColours.specifyFg
  rw [if_pos hany, if_congr hcol rfl rfl]
  cases coloured with
  | true => exact ⟨false, (fun h => nomatch h), rfl⟩
  | false =>
    rw [if_neg Bool.false_ne_true]
    by_cases hfg : old.fg = some fg
    · refine ⟨false, fun _ _ => hfg, ?_⟩
      rw [if_neg (not_not.mpr hfg), if_neg Bool.false_ne_true, ← hfg]
    · refine ⟨true, (fun _ h => nomatch h), ?_⟩
      rw [if_pos hfg]
      cases bgNamed <;> rfl

/-- What `write` makes of a solid tile. -/
theorem write_solid (old : OldColours k) (bg : RawPixel k) :
    ∃ bgNamed : Bool, (bgNamed = false → old.bg = some bg) ∧
      (solid bg).write old =
        ((if bgNamed then hextileBgSpecified else 0) :: (if bgNamed then bg.val else []),
          { old with bg := some bg }) := by
  obtain ⟨named, hnamed, hspec⟩ := specifyBg_spec old bg 0
  refine ⟨named, hnamed, ?_⟩
  show (writeHextileTile (old.specifyBg bg 0).1 bg default [], (old.specifyBg bg 0).2) = _
  obtain ⟨-, hbg, hfg, hany⟩ := solidType_flags named
  have hzero : ∀ tileType : Byte, 0 ||| tileType = tileType := fun _ => BitVec.zero_or
  rw [hspec, hzero]
  unfold writeHextileTile
  dsimp only
  rw [if_congr hbg rfl rfl, if_neg hfg, if_neg hany, List.append_nil, List.append_nil]

/-- What `write` makes of a tile with rectangles. -/
theorem write_subrects (old : OldColours k) (coloured : Bool) (bg fg : RawPixel k)
    (ss : List (Subrect (RawPixel k))) :
    ∃ bgNamed fgNamed : Bool, (bgNamed = false → old.bg = some bg) ∧
      (coloured = false → fgNamed = false → old.fg = some fg) ∧
      (subrects coloured bg fg ss).write old =
        (subrectsType coloured bgNamed fgNamed :: ((if bgNamed then bg.val else []) ++
          ((if fgNamed then fg.val else []) ++
            BitVec.ofNat 8 ss.length :: ss.flatMap (subrectBytes coloured))),
          ⟨some bg, if coloured then none else some fg⟩) := by
  obtain ⟨b, hb, hbspec⟩ := specifyBg_spec old bg
    (hextileAnySubrects ||| if coloured then hextileSubrectsColoured else 0)
  obtain ⟨f, hf, hfspec⟩ := specifyFg_spec { old with bg := some bg } fg coloured b
  refine ⟨b, f, hb, hf, ?_⟩
  have hbase : (hextileAnySubrects ||| if coloured then hextileSubrectsColoured else 0) |||
      (if b then hextileBgSpecified else 0) = subrectsType coloured b false := by
    cases b <;> cases coloured <;> rfl
  obtain ⟨-, hbflag, hfflag, hany, -⟩ := subrectsType_flags coloured b f
  rw [write, hbspec, hbase]
  dsimp only
  rw [hfspec]
  unfold writeHextileTile
  rw [if_congr hbflag rfl rfl, if_congr hfflag rfl rfl, if_pos hany]

end HextileTile

/-! ## The decoder and the bytes -/

open HextileTile

theorem reads_bytes_of_length {bytes : List Byte} {n : ℕ} (h : bytes.length = n) :
    Reads (readBytes n : Reader κ _) bytes bytes := h ▸ reads_bytes bytes

/-- A pixel that is only there under a condition. -/
theorem reads_pixelIf {c : Prop} [Decidable c] {v o : RawPixel k} (h : ¬c → v = o) :
    Reads (readPixelIf c o : Reader κ _) (if c then v.val else []) v := by
  unfold readPixelIf
  by_cases hc : c
  · rw [if_pos hc, if_pos hc]
    exact reads_pixel v
  · rw [if_neg hc, if_neg hc, h hc]
    exact consumes_refl _

theorem length_pixelIf (c : Prop) [Decidable c] (v : RawPixel k) :
    (if c then v.val else []).length = if c then k else 0 := by
  by_cases hc : c
  · rw [if_pos hc, if_pos hc, v.property]
  · rw [if_neg hc, if_neg hc]
    rfl

/-- Two numbers in the halves of a byte. -/
theorem nibbles {a b : ℕ} (ha : a < 16) (hb : b < 16) :
    ((BitVec.ofNat 8 (a <<< 4 ||| b) >>> 4) &&& 15).toNat = a ∧
      (BitVec.ofNat 8 (a <<< 4 ||| b) &&& 15).toNat = b := by
  have hall : ∀ a b : Fin 16,
      ((BitVec.ofNat 8 (a.val <<< 4 ||| b.val) >>> 4) &&& 15).toNat = a.val ∧
        (BitVec.ofNat 8 (a.val <<< 4 ||| b.val) &&& 15).toNat = b.val := by decide
  exact hall ⟨a, ha⟩ ⟨b, hb⟩

/-- The foreground the decoder is left with. -/
def lastColour (fg : RawPixel k) (ss : List (Subrect (RawPixel k))) : RawPixel k :=
  (ss.map (·.colour)).getLastD fg

theorem lastColour_eq {fg : RawPixel k} {ss : List (Subrect (RawPixel k))}
    (h : ∀ s ∈ ss, s.colour = fg) : lastColour fg ss = fg := by
  unfold lastColour
  cases hss : ss.map (·.colour) with
  | nil => rfl
  | cons c cs =>
    have hmem : (c :: cs).getLastD fg ∈ ss.map (·.colour) := by
      rw [hss, List.getLastD_cons]
      exact List.getLastD_mem_cons
    obtain ⟨s, hs, heq⟩ := List.mem_map.mp hmem
    rw [← heq]
    exact h s hs

theorem reads_subrects {w h : ℕ} (hw : w ≤ 16) (hh : h ≤ 16) {coloured : Bool} :
    ∀ {ss : List (Subrect (RawPixel k))} {buf : ℕ → RawPixel k} {fg : RawPixel k},
      (∀ s ∈ ss, Fits w h s) → (coloured = false → ∀ s ∈ ss, s.colour = fg) →
      Reads (decodeSubrects w coloured ss.length buf fg : Reader κ _)
        (ss.flatMap (subrectBytes coloured))
        (ss.foldl (fun buf s => s.write w buf) buf, lastColour fg ss)
  | [], _, _, _, _ => consumes_refl _
  | s :: ss, buf, fg, hfits, hfg => by
    obtain ⟨hwpos, hhpos, hright, hbottom⟩ := hfits s List.mem_cons_self
    obtain ⟨hx, hy⟩ := nibbles (a := s.x) (b := s.y) (by omega) (by omega)
    obtain ⟨hsw, hsh⟩ := nibbles (a := s.w - 1) (b := s.h - 1) (by omega) (by omega)
    have hcolour : ¬coloured = true → s.colour = fg := fun hc =>
      hfg (Bool.eq_false_iff.mpr hc) s List.mem_cons_self
    rw [List.flatMap_cons, subrectBytes, List.append_assoc, List.length_cons, decodeSubrects]
    refine Consumes.read (reads_pixelIf hcolour) ?_
    refine Consumes.u8 ?_
    refine Consumes.u8 ?_
    dsimp only
    rw [hx, hy, hsw, hsh, Nat.sub_add_cancel hwpos, Nat.sub_add_cancel hhpos,
      if_neg (by omega)]
    have hrest : Reads (decodeSubrects w coloured ss.length (s.write w buf) s.colour) _ _ :=
      reads_subrects hw hh (fun t ht => hfits t (List.mem_cons_of_mem s ht)) fun hc t ht => by
        rw [hfg hc s List.mem_cons_self]
        exact hfg hc t (List.mem_cons_of_mem s ht)
    have hlast : lastColour s.colour ss = lastColour fg (s :: ss) := by
      unfold lastColour
      rw [List.map_cons, List.getLastD_cons]
    rw [← hlast]
    exact hrest

/-- The decoder still has the colours the encoder takes to be valid. -/
def Agrees (old : OldColours k) (colours : HextileColours k) : Prop :=
  (∀ bg, old.bg = some bg → bg = colours.1) ∧ ∀ fg, old.fg = some fg → fg = colours.2

/-- **One tile.** The decoder turns the bytes of a tile into what the tile depicts,
and keeps up with the encoder's colours. -/
theorem reads_hextileTile {w h : ℕ} (hw : w ≤ 16) (hh : h ≤ 16) {f : Block (RawPixel k)}
    {tile : HextileTile k} (hd : Depicts w h f tile) {old : OldColours k}
    {colours : HextileColours k} (hagree : Agrees old colours) :
    ∃ buf colours', Reads (hextileDecodeTile w h colours : Reader κ _) (tile.write old).1
        (buf, colours') ∧
      (∀ x < w, ∀ y < h, blockOf w buf x y = f x y) ∧ Agrees (tile.write old).2 colours' := by
  obtain ⟨hagreeBg, hagreeFg⟩ := hagree
  cases hd with
  | raw =>
    refine ⟨fun i => (raster w h f).getD i default, colours, ?_,
      fun x hx y hy => getD_raster f default hx hy,
      (fun _ h => nomatch h), (fun _ h => nomatch h)⟩
    refine Consumes.u8 ?_
    have hpixels : Reads (readMany (readPixel k) (raster w h f).length : Reader κ _)
        ((raster w h f).flatMap (·.val)) ((raster w h f).map id) :=
      reads_many reads_pixel _
    rw [List.map_id, length_raster] at hpixels
    exact Consumes.last hpixels rfl
  | solid hbg =>
    rename_i bg
    obtain ⟨named, hnamed, hwrite⟩ := write_solid old bg
    obtain ⟨hraw, hbgflag, hfgflag, hany⟩ := solidType_flags named
    rw [hwrite]
    refine ⟨fun _ => bg, (bg, colours.2), ?_, fun x hx y hy => (hbg x hx y hy).symm,
      fun c hc => Option.some.inj hc.symm, hagreeFg⟩
    refine Consumes.u8 ?_
    rw [if_neg hraw]
    have hread := reads_pixelIf (κ := κ) (c := (if named then hextileBgSpecified else 0) &&&
      hextileBgSpecified ≠ 0) (v := bg) (o := colours.1) fun hn =>
        hagreeBg bg (hnamed (Bool.eq_false_iff.mpr fun h => hn (hbgflag.mpr h)))
    rw [if_congr hbgflag rfl rfl] at hread
    refine Consumes.last hread ?_
    unfold readPixelIf
    rw [if_neg hfgflag, pure_bind, if_neg hany]
  | subrects hcount hfits hshows hfg hcover =>
    rename_i coloured bg fg ss
    obtain ⟨b, f', hb, hf', hwrite⟩ := write_subrects old coloured bg fg ss
    obtain ⟨hraw, hbgflag, hfgflag, hany, hcolflag⟩ := subrectsType_flags coloured b f'
    -- with coloured rectangles the foreground that is read does not matter
    let fg₀ := if coloured = false ∨ f' = true then fg else colours.2
    have hfg₀ : coloured = false → fg₀ = fg := fun hc => if_pos (Or.inl hc)
    rw [hwrite]
    refine ⟨ss.foldl (fun buf s => s.write w buf) fun _ => bg, (bg, lastColour fg₀ ss),
      ?_, ?_, fun c hc => Option.some.inj hc.symm, ?_⟩
    · refine Consumes.u8 ?_
      rw [if_neg (not_not.mpr hraw)]
      have hreadBg := reads_pixelIf (κ := κ) (c := subrectsType coloured b f' &&&
        hextileBgSpecified ≠ 0) (v := bg) (o := colours.1) fun hn =>
          hagreeBg bg (hb (Bool.eq_false_iff.mpr fun h => hn (hbgflag.mpr h)))
      rw [if_congr hbgflag rfl rfl] at hreadBg
      have hreadFg := reads_pixelIf (κ := κ) (c := subrectsType coloured b f' &&&
        hextileFgSpecified ≠ 0) (v := fg₀) (o := colours.2) fun hn => by
          have hoff : f' = false := Bool.eq_false_iff.mpr fun h => hn (hfgflag.mpr h)
          by_cases hc : coloured = false
          · rw [hfg₀ hc]
            exact hagreeFg fg (hf' hc hoff)
          · exact if_neg fun h => h.elim hc fun h => nomatch hoff.symm.trans h
      have hsame : (if f' = true then fg.val else []) = if f' = true then fg₀.val else [] := by
        by_cases h : f' = true
        · rw [if_pos h, if_pos h, show fg₀ = fg from if_pos (Or.inr h)]
        · rw [if_neg h, if_neg h]
      rw [if_congr hfgflag rfl rfl, ← hsame] at hreadFg
      refine Consumes.read hreadBg (Consumes.read hreadFg ?_)
      rw [if_pos hany]
      refine Consumes.u8 ?_
      have hsubrects : Reads (decodeSubrects w coloured ss.length (fun _ => bg) fg₀ :
          Reader κ _) _ _ :=
        reads_subrects hw hh hfits fun hc s hs => (hfg hc s hs).trans (hfg₀ hc).symm
      have hcol : decide (subrectsType coloured b f' &&& hextileSubrectsColoured ≠ 0) =
          coloured := by
        rw [Bool.eq_iff_iff, decide_eq_true_iff]
        exact hcolflag
      rw [BitVec.toNat_ofNat, Nat.mod_eq_of_lt hcount, hcol]
      exact Consumes.last hsubrects rfl
    · intro x hx y hy
      rw [blockOf_foldl_write hx (f := fun _ _ => bg) (fun s hs => (hfits s hs).right) rfl]
      exact paintAll_eq hshows ((hcover x hx y hy).imp_left Eq.symm)
    · intro c hc
      by_cases hcol : coloured = true
      · rw [if_pos hcol] at hc
        cases hc
      · rw [if_neg hcol] at hc
        have hoff := Bool.eq_false_iff.mpr hcol
        obtain rfl := Option.some.inj hc
        show fg = lastColour fg₀ ss
        rw [hfg₀ hoff]
        exact (lastColour_eq (hfg hoff)).symm

/-- **One tile.** The first pass over a tile copies exactly its bytes. -/
theorem reads_hextileReadTile {w h : ℕ} {f : Block (RawPixel k)} {tile : HextileTile k}
    (hd : Depicts w h f tile) (old : OldColours k) :
    Reads (hextileReadTile k w h : Reader κ _) (tile.write old).1 (tile.write old).1 := by
  cases hd with
  | raw =>
    refine Consumes.u8 ?_
    have hlen : ((raster w h f).flatMap (·.val)).length = h * w * k := by
      rw [length_flatMap_of_length fun p _ => p.property, length_raster]
    exact Consumes.last (reads_bytes_of_length hlen) rfl
  | solid hbg =>
    rename_i bg
    obtain ⟨named, -, hwrite⟩ := write_solid old bg
    obtain ⟨hraw, hbgflag, hfgflag, hany⟩ := solidType_flags named
    rw [hwrite]
    refine Consumes.u8 ?_
    rw [if_neg hraw, if_congr hbgflag rfl rfl]
    refine Consumes.last (reads_bytes_of_length (length_pixelIf _ bg)) ?_
    have hnone : (readBytes 0 : Reader κ _) = pure [] := by
      funext ⟨input, calls⟩
      simp [readBytes, pure_run]
    rw [if_neg hfgflag, hnone, pure_bind, if_neg hany, List.append_nil]
  | subrects hcount hfits hshows hfg hcover =>
    rename_i coloured bg fg ss
    obtain ⟨b, f', -, -, hwrite⟩ := write_subrects old coloured bg fg ss
    obtain ⟨hraw, hbgflag, hfgflag, hany, hcolflag⟩ := subrectsType_flags coloured b f'
    rw [hwrite]
    refine Consumes.u8 ?_
    rw [if_neg (not_not.mpr hraw), if_congr hbgflag rfl rfl, if_congr hfgflag rfl rfl,
      if_congr hcolflag rfl rfl]
    refine Consumes.read (reads_bytes_of_length (length_pixelIf _ bg)) ?_
    refine Consumes.read (reads_bytes_of_length (length_pixelIf _ fg)) ?_
    rw [if_pos hany]
    refine Consumes.u8 ?_
    have hone : ∀ s ∈ ss, (subrectBytes coloured s).length =
        if coloured = true then k + 2 else 2 := by
      intro s _
      rw [subrectBytes, List.length_append, length_pixelIf]
      split <;> simp [subrectCoords]
    have hlen : (ss.flatMap (subrectBytes coloured)).length =
        (BitVec.ofNat 8 ss.length).toNat * if coloured = true then k + 2 else 2 := by
      rw [length_flatMap_of_length hone, BitVec.toNat_ofNat, Nat.mod_eq_of_lt hcount]
    exact Consumes.last (reads_bytes_of_length hlen) rfl

/-! ## All tiles -/

/-- The bytes of a list of tiles. -/
def writeTiles (old : OldColours k) : List (Rect × HextileTile k) → List Byte
  | [] => []
  | e :: rest => (e.2.write old).1 ++ writeTiles (e.2.write old).2 rest

/-- Each tile says what its part of the buffer looks like. -/
def DepictsAll (pb : PreparedBuffer (RawPixel k)) (tiles : List (Rect × HextileTile k)) : Prop :=
  ∀ e ∈ tiles, e.1 ∈ pb.getRect.tiles 16 ∧ Depicts e.1.cols e.1.rows (pb.getImage e.1) e.2

theorem reads_hextileDecodeTiles {pb : PreparedBuffer (RawPixel k)} {d : Point} :
    ∀ {tiles : List (Rect × HextileTile k)} {o : OldColours k} {c : HextileColours k}
      {g : Point → RawPixel k}, DepictsAll pb tiles → Agrees o c →
      ∃ g', Reads (hextileDecodeTiles (tiles.map fun e => e.1.translate d) c g :
          Reader κ _) (writeTiles o tiles) g' ∧
        Shown Eq pb d (tiles.map Prod.fst) g g'
  | [], _, _, frame, _, _ => ⟨frame, consumes_refl _, shown_nil⟩
  | (t, tile) :: rest, old, colours, frame, hall, hagree => by
    obtain ⟨ht, hd⟩ := hall (t, tile) List.mem_cons_self
    obtain ⟨⟨-, hw⟩, -, hh⟩ := Rect.tile_bounds (by decide) ht
    obtain ⟨buf, colours', hread, himage, hagree'⟩ :=
      reads_hextileTile (κ := κ) (Nat.cast_le.mp hw) (Nat.cast_le.mp hh) hd hagree
    obtain ⟨frame', hrest, hshown⟩ := reads_hextileDecodeTiles
      (g := imageRect (t.translate d) (blockOf t.cols buf) frame)
      (fun e he => hall e (List.mem_cons_of_mem _ he)) hagree'
    refine ⟨frame', ?_, hshown.cons himage⟩
    rw [List.map_cons, hextileDecodeTiles, Rect.cols_translate, Rect.rows_translate]
    exact Consumes.read hread hrest

theorem reads_hextileReadTiles {pb : PreparedBuffer (RawPixel k)} {d : Point} :
    ∀ {tiles : List (Rect × HextileTile k)} {old : OldColours k}, DepictsAll pb tiles →
      Reads (hextileReadTiles k (tiles.map fun e => e.1.translate d) : Reader κ _)
        (writeTiles old tiles) (writeTiles old tiles)
  | [], _, _ => consumes_refl _
  | (t, tile) :: rest, old, hall => by
    obtain ⟨-, hd⟩ := hall (t, tile) List.mem_cons_self
    rw [List.map_cons, hextileReadTiles, Rect.cols_translate, Rect.rows_translate]
    refine Consumes.read (reads_hextileReadTile hd old) ?_
    exact Consumes.last (reads_hextileReadTiles fun e he => hall e (List.mem_cons_of_mem _ he))
      rfl

/-- **The hextile format.** If the tiles of a buffer say what it looks like, their
bytes are read as a whole, and decode to the buffer at the place of the rectangle. -/
theorem hextile_format {pb : PreparedBuffer (RawPixel k)} {tiles : List (Rect × HextileTile k)}
    (htiles : tiles.map Prod.fst = pb.getRect.tiles 16) (hall : DepictsAll pb tiles) (d : Point)
    (frame : Point → RawPixel k) :
    Reads (hextileReadRect k (pb.getRect.translate d) : Reader κ _) (writeTiles {} tiles)
        (writeTiles {} tiles) ∧
      ∃ frame', Reads (hextileDecode k (pb.getRect.translate d) frame : Reader κ _)
          (writeTiles {} tiles) frame' ∧
        (∀ p ∈ Region.ofRect pb.getRect, frame' (p + d) = pb.pixel p) ∧
        ∀ p ∉ Region.ofRect pb.getRect, frame' (p + d) = frame (p + d) := by
  have hmoved : (pb.getRect.translate d).tiles 16 = tiles.map fun e => e.1.translate d := by
    rw [Rect.tiles_translate, ← htiles, List.map_map]
    rfl
  obtain ⟨frame', hread, hshown⟩ := reads_hextileDecodeTiles (κ := κ) (d := d) (g := frame)
    (o := {}) (c := (default, default)) hall
    ⟨(fun _ h => nomatch h), fun _ h => nomatch h⟩
  rw [htiles] at hshown
  obtain ⟨hin, hout⟩ := hshown.whole (by decide)
  refine ⟨?_, frame', ?_, hin, hout⟩
  · rw [hextileReadRect, hmoved]
    exact reads_hextileReadTiles hall
  · rw [hextileDecode, hmoved]
    exact hread

end KasmVNC.Rfb
