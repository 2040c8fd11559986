import KasmVNC.Lib.Checked
import KasmVNC.Lib.Packing
import KasmVNC.Lib.Zlib
import KasmVNC.Rfb.Palette
import KasmVNC.Rfb.PixelFormat
import KasmVNC.Rfb.Tiles

/-!
# ZRLE

A rectangle is sent as tiles of at most 64 by 64 pixels, compressed as a whole. A
tile is one colour, raw pixels, indices into a palette that are packed into bytes,
or runs of such indices. Pixels of 32 bits may be sent in three bytes, and each end
decides for itself whether they are, and which three.

`zrle_format` is about what all tiles have in common: whenever the client reads a
pixel as some other pixel, it reads the rectangle as these pixels.
-/

namespace KasmVNC.Rfb

open KasmVNC.Lib Reader

variable {κ : Type} {k : ℕ}

/-! ## The encoder -/

section Encoder

variable (writePx : RawPixel k → List Byte)

def zrleWritePalette (palette : Palette (RawPixel k)) : List Byte :=
  palette.colours.flatMap writePx

/-- `palette.lookup` in a byte. -/
def zrleIndex (palette : Palette (RawPixel k)) (c : RawPixel k) : Byte :=
  BitVec.ofNat 8 (palette.lookup c)

def bitsPerPackedPixel : List ℕ := [0, 1, 2, 2, 4, 4, 4, 4, 4, 4, 4, 4, 4, 4, 4, 4]

/-- `writePaletteTile`, with the assertions, of which one is that no other colour is
looked up. -/
def zrleWritePaletteTile (palette : Palette (RawPixel k)) (w h : ℕ) (tile : Block (RawPixel k)) :
    Except Fault (List Byte) :=
  let bppp := bitsPerPackedPixel.getD (palette.size - 1) 0
  (require (palette.size > 1 ∧ palette.size ≤ 16 ∧ ∀ c ∈ raster w h tile, c ∈ palette.colours)).map
    fun _ => BitVec.ofNat 8 palette.size :: (zrleWritePalette writePx palette ++
      (List.range h).flatMap fun y =>
        packBits bppp 0 0 ((List.range w).map fun x => zrleIndex palette (tile x y)))

/-- The end of a run. -/
def zrleWriteRun (palette : Palette (RawPixel k)) (prevColour : RawPixel k) (runLength : ℕ) :
    List Byte :=
  if runLength = 1 then [zrleIndex palette prevColour]
  else (zrleIndex palette prevColour ||| 0x80) :: runBytes runLength

/-- The loop over the pixels in `writePaletteRLETile`. -/
def zrleWriteRuns (palette : Palette (RawPixel k)) : RawPixel k → ℕ → List (RawPixel k) → List Byte
  | prevColour, runLength, [] => zrleWriteRun palette prevColour runLength
  | prevColour, runLength, c :: cs =>
    if prevColour ≠ c then
      zrleWriteRun palette prevColour runLength ++ zrleWriteRuns palette c 1 cs
    else zrleWriteRuns palette prevColour (runLength + 1) cs

/-- `writePaletteRLETile` -/
def zrleWritePaletteRLETile (palette : Palette (RawPixel k)) (w h : ℕ)
    (tile : Block (RawPixel k)) : Except Fault (List Byte) :=
  (require (palette.size > 1 ∧ palette.size ≤ 127 ∧ ∀ c ∈ raster w h tile, c ∈ palette.colours)).map
    fun _ => (BitVec.ofNat 8 palette.size ||| 0x80) :: (zrleWritePalette writePx palette ++
      zrleWriteRuns palette (tile 0 0) 0 (raster w h tile))

/-- `writeRawTile` -/
def zrleWriteRawTile (w h : ℕ) (tile : Block (RawPixel k)) : Except Fault (List Byte) :=
  .ok (0 :: (raster w h tile).flatMap writePx)

/-- The body of the loop over the tiles in `writeRect`. -/
def zrleWriteTile (palette : Palette (RawPixel k)) (w h : ℕ) (tile : Block (RawPixel k)) :
    Except Fault (List Byte) :=
  if palette.size = 0 then zrleWriteRawTile writePx w h tile
  else if palette.size ≤ 16 then zrleWritePaletteTile writePx palette w h tile
  else zrleWritePaletteRLETile writePx palette w h tile

/-- The loop over the tiles. -/
def zrleWriteTiles (write : Rect → Except Fault (List Byte)) : List Rect → Except Fault (List Byte)
  | [] => .ok []
  | t :: ts =>
    match write t with
    | .error e => .error e
    | .ok bytes => (zrleWriteTiles write ts).map (bytes ++ ·)

/-- `writeSolidRect`, before compression. -/
def zrleWriteSolid (width height : ℕ) (colour : RawPixel k) : List Byte :=
  (List.replicate ((width + 63) / 64 * ((height + 63) / 64)) (1 :: writePx colour)).flatten

/-- What `writeRect` writes to the compressed stream. -/
def zrleWriteData (palette : Palette (RawPixel k)) (pb : PreparedBuffer (RawPixel k)) :
    Except Fault (List Byte) :=
  if palette.size = 1 then .ok (zrleWriteSolid writePx pb.width pb.height (palette.getColour 0))
  else
    zrleWriteTiles (fun t => zrleWriteTile writePx palette t.cols t.rows (pb.getImage t))
      (pb.getRect.tiles 64)

end Encoder

/-! ## The decoder -/

section Decoder

variable (readPx : Reader κ (RawPixel k))

/-- The length of a run, less one if it is more than one. -/
def zrleReadLength (long : Prop) [Decidable long] : Reader κ ℕ :=
  if long then (1 + ·) <$> readRun else pure 1

/-- The loop for palette RLE: so many pixels are left. Each turn is for at least one. -/
def zrleDecodePaletteRLE (palette : List (RawPixel k)) : ℕ → ℕ → Reader κ (List (RawPixel k))
  | 0, _ => pure []
  | turns + 1, left =>
    if left = 0 then pure []
    else do
      let index ← readU8
      let len ← zrleReadLength (index &&& 128 ≠ 0)
      if left < len then fail "ZRLE decode error"
      else do
        let rest ← zrleDecodePaletteRLE palette turns (left - len)
        pure (List.replicate len (palette.getD (index &&& 127).toNat default) ++ rest)

/-- The loop for plain RLE. -/
def zrleDecodePlainRLE : ℕ → ℕ → Reader κ (List (RawPixel k))
  | 0, _ => pure []
  | turns + 1, left =>
    if left = 0 then pure []
    else do
      let pix ← readPx
      let len ← zrleReadLength True
      if left < len then fail "ZRLE decode error"
      else do
        let rest ← zrleDecodePlainRLE turns (left - len)
        pure (List.replicate len pix ++ rest)

/-- One row of packed indices. -/
def zrleUnpackRow (palette : List (RawPixel k)) (w : ℕ) : Reader κ (List (RawPixel k)) := do
  let bppp :=
    if palette.length > 16 then 8 else if palette.length > 4 then 4
    else if palette.length > 2 then 2 else 1
  let indices ← unpackBits bppp w 0 0
  pure (indices.map fun index => palette.getD (index &&& 127).toNat default)

/-- The pixels of a tile, after mode and palette. -/
def zrleDecodePixels (w h : ℕ) (rle : Bool) (palette : List (RawPixel k)) :
    Reader κ (Block (RawPixel k)) :=
  if palette.length = 1 then pure fun _ _ => palette.getD 0 default
  else
    bufferBlock w <$>
      if rle then
        if palette.length = 0 then zrleDecodePlainRLE readPx (h * w) (h * w)
        else zrleDecodePaletteRLE palette (h * w) (h * w)
      else if palette.length = 0 then readMany readPx (h * w)
      else List.flatten <$> readMany (zrleUnpackRow palette w) h

/-- The body of the loop over the tiles in `zrleDecode`. -/
def zrleDecodeTile (w h : ℕ) : Reader κ (Block (RawPixel k)) := do
  let mode ← readU8
  let palette ← readMany readPx (mode &&& 127).toNat
  zrleDecodePixels readPx w h (mode &&& 128 ≠ 0) palette

def zrleDecodeTiles : List Rect → (Point → RawPixel k) → Reader κ (Point → RawPixel k)
  | [], frame => pure frame
  | t :: ts, frame => do
      let image ← zrleDecodeTile readPx t.cols t.rows
      zrleDecodeTiles ts (imageRect t image frame)

/-- The bytes the decompressor gets: `length` is an `int`, and a `size_t` after that. -/
def readCounted : Reader κ (List Byte) := do
  let length ← readU32
  readBytes (length.signExtend 64).toNat

/-- `zrleDecode`. What the tiles do not use of the data is dropped. -/
def zrleDecode (Z : Zlib) (zis : Z.Inflate) (r : Rect) (frame : Point → RawPixel k) :
    Reader κ ((Point → RawPixel k) × Z.Inflate) := do
  let bytes ← readCounted
  match Z.decompress zis bytes with
  | .error msg => fail msg
  | .ok (data, zis) =>
    match zrleDecodeTiles readPx (r.tiles 64) frame ⟨data, []⟩ with
    | .error msg => fail msg
    | .ok (frame, _) => pure (frame, zis)

end Decoder

/-- `ZRLEDecoder::readRect`: the bytes it copies. -/
def zrleReadRect : Reader κ (List Byte) := do
  let length ← readU32
  let bytes ← readBytes length.toNat
  pure (be32 length ++ bytes)

/-! ## Tiles -/

/-- A tile that is written is read as its recoded pixels. -/
def TileTrips (readPx : Reader κ (RawPixel k)) (recode : RawPixel k → RawPixel k) (w h : ℕ)
    (tile : Block (RawPixel k)) (written : Except Fault (List Byte)) : Prop :=
  ∃ bytes image, written = .ok bytes ∧ Reads (zrleDecodeTile readPx w h) bytes image ∧
    ∀ x < w, ∀ y < h, image x y = recode (tile x y)

/-- Mode bytes, and indices in a run. -/
theorem low_bits : ∀ n : Fin 128,
    ((BitVec.ofNat 8 n.val &&& 127).toNat = n.val ∧ ¬BitVec.ofNat 8 n.val &&& 128 ≠ 0) ∧
      ((BitVec.ofNat 8 n.val ||| 0x80) &&& 127).toNat = n.val ∧
        (BitVec.ofNat 8 n.val ||| 0x80) &&& 128 ≠ 0 := by
  decide

section Tiles

variable {writePx : RawPixel k → List Byte} {readPx : Reader κ (RawPixel k)}
  {ρ : RawPixel k → RawPixel k} {palette : Palette (RawPixel k)} {w h : ℕ}
  {tile : Block (RawPixel k)}

/-- The mode and the palette in front of a tile. -/
theorem consumes_mode (hpx : ∀ v, Reads readPx (writePx v) (ρ v)) {mode : Byte}
    (hsize : (mode &&& 127).toNat = palette.size) {bytes : List Byte}
    {r : Reader κ (Block (RawPixel k))}
    (h' : Consumes (zrleDecodePixels readPx w h (mode &&& 128 ≠ 0) (palette.colours.map ρ))
      bytes r) :
    Consumes (zrleDecodeTile readPx w h) (mode :: (zrleWritePalette writePx palette ++ bytes))
      r := by
  refine Consumes.u8 ?_
  have hlen : palette.colours.length = palette.size := List.length_map _
  have hpal : Reads (readMany readPx palette.colours.length) (zrleWritePalette writePx palette)
      (palette.colours.map ρ) := reads_many hpx _
  rw [hlen] at hpal
  rw [hsize]
  exact Consumes.read hpal h'

theorem trips_solid (hpx : ∀ v, Reads readPx (writePx v) (ρ v)) {c : RawPixel k}
    (hall : ∀ x < w, ∀ y < h, tile x y = c) :
    TileTrips readPx ρ w h tile (.ok (1 :: writePx c)) := by
  refine ⟨_, fun _ _ => ρ c, rfl, ?_, fun x hx y hy => by rw [hall x hx y hy]⟩
  refine Consumes.u8 ?_
  have hone : readMany readPx ((1 : Byte) &&& 127).toNat = readMany readPx 1 := rfl
  rw [hone]
  have hread : Reads (readMany readPx 1) (writePx c) [ρ c] := Consumes.last (hpx c) rfl
  exact Consumes.last hread rfl

theorem trips_raw (hpx : ∀ v, Reads readPx (writePx v) (ρ v)) :
    TileTrips readPx ρ w h tile (zrleWriteRawTile writePx w h tile) := by
  refine ⟨_, bufferBlock w ((raster w h tile).map ρ), rfl, ?_,
    fun x hx y hy => bufferBlock_raster hx hy⟩
  refine Consumes.u8 ?_
  have hnone : readMany readPx ((0 : Byte) &&& 127).toNat = pure [] := rfl
  have hread : Reads (readMany readPx (raster w h tile).length) ((raster w h tile).flatMap writePx)
      ((raster w h tile).map ρ) := reads_many hpx _
  rw [length_raster] at hread
  rw [hnone, pure_bind]
  show Consumes (bufferBlock w <$> readMany readPx (h * w)) _ _
  rw [map_eq_pure_bind]
  exact Consumes.last hread rfl

/-- Looking up a colour and reading its entry of the palette. -/
theorem entry_of_lookup {c : RawPixel k} (hc : c ∈ palette.colours) :
    (palette.colours.map ρ).getD (palette.lookup c) default = ρ c := by
  rw [List.getD_eq_getElem?_getD, List.getElem?_map, Palette.getElem?_lookup hc]
  rfl

theorem index_bits (hsize : palette.size ≤ 127) {c : RawPixel k} (hc : c ∈ palette.colours) :
    ((zrleIndex palette c &&& 127).toNat = palette.lookup c ∧ ¬zrleIndex palette c &&& 128 ≠ 0) ∧
      ((zrleIndex palette c ||| 0x80) &&& 127).toNat = palette.lookup c ∧
        (zrleIndex palette c ||| 0x80) &&& 128 ≠ 0 :=
  low_bits ⟨palette.lookup c, by
    have := Palette.lookup_lt hc
    omega⟩

/-- One run of the palette RLE. -/
theorem consumes_run (hsize : palette.size ≤ 127) {c : RawPixel k} (hc : c ∈ palette.colours)
    {n l m : ℕ} (hpos : 0 < n) (hle : n ≤ l) :
    Consumes (zrleDecodePaletteRLE (κ := κ) (palette.colours.map ρ) (m + 1) l)
      (zrleWriteRun palette c n) (do
        let rest ← zrleDecodePaletteRLE (palette.colours.map ρ) m (l - n)
        pure (List.replicate n (ρ c) ++ rest)) := by
  obtain ⟨⟨hshort, hflag⟩, hlong, hflag'⟩ := index_bits hsize hc
  have hleft : l ≠ 0 := by omega
  rw [zrleDecodePaletteRLE, if_neg hleft, zrleWriteRun]
  by_cases hone : n = 1
  · subst hone
    rw [if_pos rfl]
    refine Consumes.last (reads_u8 _) ?_
    rw [zrleReadLength, if_neg hflag, pure_bind, if_neg (by omega), hshort, entry_of_lookup hc]
  · rw [if_neg hone]
    refine Consumes.u8 ?_
    rw [zrleReadLength, if_pos hflag', map_eq_pure_bind, bind_assoc]
    refine Consumes.last (reads_run hpos) ?_
    have hsum : 1 + (n - 1) = n := by omega
    rw [pure_bind, hsum, if_neg (by omega), hlong, entry_of_lookup hc]

/-- All runs, by the pixels they are made from. -/
theorem reads_runs (hsize : palette.size ≤ 127) :
    ∀ {l : List (RawPixel k)} {c : RawPixel k} {n m : ℕ}, 0 < n → n + l.length ≤ m →
      (∀ d ∈ c :: l, d ∈ palette.colours) →
      Reads (zrleDecodePaletteRLE (κ := κ) (palette.colours.map ρ) m (n + l.length))
        (zrleWriteRuns palette c n l) (List.replicate n (ρ c) ++ l.map ρ)
  | [], c, n, m, hpos, hturns, hall => by
    obtain ⟨m', rfl⟩ : ∃ m', m = m' + 1 := ⟨m - 1, by omega⟩
    have hrun := consumes_run (κ := κ) (ρ := ρ) (m := m') hsize (hall c List.mem_cons_self) hpos
      (Nat.le_refl n)
    have hdone : zrleDecodePaletteRLE (κ := κ) (palette.colours.map ρ) m' (n - n) = pure [] := by
      rw [Nat.sub_self]
      cases m' <;> rfl
    rw [hdone, pure_bind] at hrun
    exact hrun
  | d :: ds, c, n, m, hpos, hturns, hall => by
    rw [zrleWriteRuns, List.map_cons]
    by_cases hcd : c ≠ d
    · rw [if_pos hcd]
      obtain ⟨m', rfl⟩ : ∃ m', m = m' + 1 := ⟨m - 1, by omega⟩
      rw [List.length_cons] at hturns ⊢
      have hrun := consumes_run (κ := κ) (ρ := ρ) (m := m') (c := c) (l := n + (ds.length + 1))
        hsize (hall c List.mem_cons_self) hpos (by omega)
      have hrest := reads_runs (n := 1) (m := m') hsize (c := d) (l := ds) Nat.one_pos
        (by omega) fun e he => hall e (List.mem_cons_of_mem c he)
      have hleft : n + (ds.length + 1) - n = 1 + ds.length := by omega
      rw [hleft] at hrun
      intro rest calls
      rw [List.append_assoc, hrun]
      exact Consumes.last hrest rfl rest calls
    · rw [if_neg hcd]
      obtain rfl := not_not.mp hcd
      have hrest := reads_runs (n := n + 1) (m := m) hsize (c := c) (l := ds) (Nat.succ_pos n)
        (by rw [List.length_cons] at hturns; omega) fun e he =>
          hall e (List.mem_cons_of_mem c he)
      have hleft : n + (c :: ds).length = n + 1 + ds.length := by
        rw [List.length_cons]
        omega
      rw [hleft]
      rwa [List.replicate_succ', List.append_assoc, List.singleton_append] at hrest

theorem trips_paletteRLE (hpx : ∀ v, Reads readPx (writePx v) (ρ v)) (hmany : 1 < palette.size)
    (hsize : palette.size ≤ 127) (hall : ∀ c ∈ raster w h tile, c ∈ palette.colours)
    (hw : 0 < w) (hh : 0 < h) :
    TileTrips readPx ρ w h tile (zrleWritePaletteRLETile writePx palette w h tile) := by
  obtain ⟨-, hmode, hrle⟩ := low_bits ⟨palette.size, by omega⟩
  have hwritten : zrleWritePaletteRLETile writePx palette w h tile =
      .ok ((BitVec.ofNat 8 palette.size ||| 0x80) :: (zrleWritePalette writePx palette ++
        zrleWriteRuns palette (tile 0 0) 0 (raster w h tile))) := by
    rw [zrleWritePaletteRLETile, require_ok ⟨hmany, hsize, hall⟩]
    rfl
  refine ⟨_, bufferBlock w ((raster w h tile).map ρ), hwritten, ?_,
    fun x hx y hy => bufferBlock_raster hx hy⟩
  · refine consumes_mode hpx hmode ?_
    have hlen : (palette.colours.map ρ).length = palette.size := by
      rw [List.length_map]
      exact List.length_map _
    rw [zrleDecodePixels, hlen, if_neg (by omega), if_pos (decide_eq_true hrle),
      if_neg (by omega), map_eq_pure_bind]
    refine Consumes.last ?_ rfl
    -- the first pixel starts the first run
    obtain ⟨cs, hcs⟩ : ∃ cs, raster w h tile = tile 0 0 :: cs := by
      have hget := getElem?_raster tile hw hh
      rw [Nat.zero_mul, Nat.zero_add] at hget
      cases hraster : raster w h tile with
      | nil =>
        rw [hraster] at hget
        cases hget
      | cons c cs =>
        rw [hraster] at hget
        exact ⟨cs, by rw [Option.some.inj hget]⟩
    have hcount := length_raster w h tile
    rw [hcs, List.length_cons] at hcount
    have hruns := reads_runs (κ := κ) (ρ := ρ) (l := cs) (c := tile 0 0) (n := 1)
      (m := h * w) hsize Nat.one_pos (by omega) (hcs ▸ hall)
    have hleft : 1 + cs.length = h * w := by omega
    rw [hleft] at hruns
    rw [hcs, zrleWriteRuns, if_neg (not_not.mpr rfl), List.map_cons]
    exact hruns

/-- Both ends use the same number of bits for an index, and it is enough. -/
theorem packed_bits : ∀ n : Fin 17, 1 < n.val →
    let bppp := bitsPerPackedPixel.getD (n.val - 1) 0
    (if n.val > 16 then 8 else if n.val > 4 then 4 else if n.val > 2 then 2 else 1) = bppp ∧
      (0 < bppp ∧ bppp ∣ 8) ∧ n.val ≤ 2 ^ bppp := by
  decide

/-- One row of packed indices. -/
theorem reads_unpackRow (hmany : 1 < palette.size) (hsize : palette.size ≤ 16) {y : ℕ}
    (hall : ∀ x < w, tile x y ∈ palette.colours) :
    Reads (zrleUnpackRow (κ := κ) (palette.colours.map ρ) w)
      (packBits (bitsPerPackedPixel.getD (palette.size - 1) 0) 0 0
        ((List.range w).map fun x => zrleIndex palette (tile x y)))
      ((List.range w).map fun x => ρ (tile x y)) := by
  have hlen : (palette.colours.map ρ).length = palette.size := by
    rw [List.length_map]
    exact List.length_map _
  obtain ⟨hbppp, ⟨hpos, hdvd⟩, hpow⟩ := packed_bits ⟨palette.size, by omega⟩ hmany
  dsimp only at hbppp hpos hdvd hpow
  have hcols : ∀ x ∈ List.range w, tile x y ∈ palette.colours := fun x hx =>
    hall x (List.mem_range.mp hx)
  have hindex : ∀ i ∈ (List.range w).map fun x => zrleIndex palette (tile x y),
      i.toNat < 2 ^ bitsPerPackedPixel.getD (palette.size - 1) 0 := by
    intro i hi
    obtain ⟨x, hx, rfl⟩ := List.mem_map.mp hi
    have hlt := Palette.lookup_lt (hcols x hx)
    rw [zrleIndex, BitVec.toNat_ofNat, Nat.mod_eq_of_lt (by omega)]
    omega
  have hread := reads_unpackBits (κ := κ) hpos hdvd 0 0 hindex
  rw [List.length_map, List.length_range] at hread
  unfold zrleUnpackRow
  rw [hlen, hbppp]
  refine Consumes.last hread ?_
  rw [List.map_map]
  refine congrArg pure (List.map_congr_left fun x hx => ?_)
  have hsize' : palette.size ≤ 127 := by omega
  rw [Function.comp_apply, (index_bits hsize' (hcols x hx)).1.1, entry_of_lookup (hcols x hx)]

theorem trips_palette (hpx : ∀ v, Reads readPx (writePx v) (ρ v)) (hmany : 1 < palette.size)
    (hsize : palette.size ≤ 16) (hall : ∀ c ∈ raster w h tile, c ∈ palette.colours) :
    TileTrips readPx ρ w h tile (zrleWritePaletteTile writePx palette w h tile) := by
  obtain ⟨⟨hmode, hplain⟩, -⟩ := low_bits ⟨palette.size, by omega⟩
  have hwritten : zrleWritePaletteTile writePx palette w h tile =
      .ok (BitVec.ofNat 8 palette.size :: (zrleWritePalette writePx palette ++
        (List.range h).flatMap fun y =>
          packBits (bitsPerPackedPixel.getD (palette.size - 1) 0) 0 0
            ((List.range w).map fun x => zrleIndex palette (tile x y)))) := by
    rw [zrleWritePaletteTile, require_ok ⟨hmany, hsize, hall⟩]
    rfl
  refine ⟨_, bufferBlock w ((raster w h tile).map ρ), hwritten, ?_,
    fun x hx y hy => bufferBlock_raster hx hy⟩
  refine consumes_mode hpx hmode ?_
  have hlen : (palette.colours.map ρ).length = palette.size := by
    rw [List.length_map]
    exact List.length_map _
  have hrow : ∀ y ∈ List.range h, Reads (zrleUnpackRow (κ := κ) (palette.colours.map ρ) w) _ _ :=
    fun y hy => reads_unpackRow hmany hsize fun x hx =>
      hall _ (mem_raster.mpr ⟨x, hx, y, List.mem_range.mp hy, rfl⟩)
  have hrows := reads_manyOf hrow
  rw [List.length_range] at hrows
  rw [zrleDecodePixels, hlen, if_neg (by omega), if_neg (by simpa using hplain), if_neg (by omega),
    map_eq_pure_bind, map_eq_pure_bind, bind_assoc]
  refine Consumes.last hrows ?_
  rw [pure_bind, raster, List.map_flatMap, List.flatMap_def]
  simp [Function.comp_def]

/-- **One tile** of a rectangle with an empty palette, or one with all its colours. -/
theorem trips_tile (hpx : ∀ v, Reads readPx (writePx v) (ρ v)) (hsize : palette.size ≤ 127)
    (hone : palette.size ≠ 1) (hall : palette.size ≠ 0 → ∀ c ∈ raster w h tile, c ∈ palette.colours)
    (hw : 0 < w) (hh : 0 < h) :
    TileTrips readPx ρ w h tile (zrleWriteTile writePx palette w h tile) := by
  unfold zrleWriteTile
  by_cases hzero : palette.size = 0
  · rw [if_pos hzero]
    exact trips_raw hpx
  · rw [if_neg hzero]
    by_cases hfew : palette.size ≤ 16
    · rw [if_pos hfew]
      exact trips_palette hpx (by omega) hfew (hall hzero)
    · rw [if_neg hfew]
      exact trips_paletteRLE hpx (by omega) hsize (hall hzero) hw hh

/-! ## All tiles -/

/-- Tiles that are read one after another. -/
theorem reads_zrleDecodeTiles {pb : PreparedBuffer (RawPixel k)} {d : Point}
    {write : Rect → Except Fault (List Byte)} :
    ∀ {ts : List Rect} {g : Point → RawPixel k},
      (∀ t ∈ ts, TileTrips readPx ρ t.cols t.rows (pb.getImage t) (write t)) →
      ∃ bytes g', zrleWriteTiles write ts = .ok bytes ∧
        Reads (zrleDecodeTiles readPx (ts.map (·.translate d)) g) bytes g' ∧
        Shown (fun v p => v = ρ p) pb d ts g g'
  | [], g, _ => ⟨[], g, rfl, consumes_refl _, shown_nil⟩
  | t :: ts, g, hall => by
    obtain ⟨b, image, hwrite, hread, himage⟩ := hall t List.mem_cons_self
    obtain ⟨bytes, g', hok, hrest, hshown⟩ := reads_zrleDecodeTiles (d := d)
      (g := imageRect (t.translate d) image g) fun u hu => hall u (List.mem_cons_of_mem t hu)
    refine ⟨b ++ bytes, g', ?_, ?_, hshown.cons himage⟩
    · rw [zrleWriteTiles, hwrite, hok]
      rfl
    · rw [List.map_cons, zrleDecodeTiles, Rect.cols_translate, Rect.rows_translate]
      exact Consumes.read hread hrest

/-- `writeSolidRect` writes as many tiles as there are. -/
theorem zrleWriteSolid_eq (pb : PreparedBuffer (RawPixel k)) (c : RawPixel k) :
    zrleWriteTiles (fun _ => .ok (1 :: writePx c)) (pb.getRect.tiles 64) =
      .ok (zrleWriteSolid writePx pb.width pb.height c) := by
  have heach : ∀ ts : List Rect, zrleWriteTiles (fun _ => .ok (1 :: writePx c)) ts =
      .ok (List.replicate ts.length (1 :: writePx c)).flatten := by
    intro ts
    induction ts with
    | nil => rfl
    | cons t ts ih =>
      rw [zrleWriteTiles, ih]
      rfl
  have hcount : ∀ n : ℕ, (strides 64 0 (n : ℤ)).length = (n + 63) / 64 := by
    intro n
    cases n with
    | zero => rfl
    | succ n =>
      have hlen : ((strides 64 0 ((n + 1 : ℕ) : ℤ)).length : ℤ) = _ :=
        length_strides (by decide) (by omega)
      omega
  rw [heach, zrleWriteSolid]
  congr 3
  unfold Rect.tiles
  rw [List.length_flatMap]
  simp only [List.length_map, PreparedBuffer.getRect, hcount]
  rw [List.map_const', List.sum_replicate_nat, hcount, Nat.mul_comm]

/-- **The ZRLE format.** With an empty palette or one that has counted the pixels, the
client reads the rectangle as the recoded pixels. -/
theorem zrle_format (hpx : ∀ v, Reads readPx (writePx v) (ρ v))
    {pb : PreparedBuffer (RawPixel k)} (hpalette : palette.size ≠ 0 → Tallies palette pb.pixels)
    (hsize : palette.size ≤ 127) (d : Point) (frame : Point → RawPixel k) :
    ∃ data frame', zrleWriteData writePx palette pb = .ok data ∧
      Reads (zrleDecodeTiles readPx ((pb.getRect.translate d).tiles 64) frame) data frame' ∧
      (∀ p ∈ Region.ofRect pb.getRect, frame' (p + d) = ρ (pb.pixel p)) ∧
      ∀ p ∉ Region.ofRect pb.getRect, frame' (p + d) = frame (p + d) := by
  have hcolours : palette.size ≠ 0 → ∀ t ∈ pb.getRect.tiles 64, ∀ x < t.cols, ∀ y < t.rows,
      pb.getImage t x y ∈ palette.colours := by
    intro hne t ht x hx y hy
    exact ((hpalette hne).mem_iff _).mpr (PreparedBuffer.getImage_mem (by decide) ht hx hy)
  rw [Rect.tiles_translate]
  unfold zrleWriteData
  by_cases hone : palette.size = 1
  · rw [if_pos hone, ← zrleWriteSolid_eq]
    have hsolid : ∀ c ∈ palette.colours, c = palette.getColour 0 := by
      intro c hc
      rw [Palette.colours_of_size_one hone] at hc
      exact List.mem_singleton.mp hc
    have htrips : ∀ t ∈ pb.getRect.tiles 64, TileTrips readPx ρ t.cols t.rows
        (pb.getImage t) (.ok (1 :: writePx (palette.getColour 0))) := fun t ht =>
      trips_solid hpx fun x hx y hy => hsolid _ (hcolours (by omega) t ht x hx y hy)
    obtain ⟨data, frame', hwrite, hread, hshown⟩ :=
      reads_zrleDecodeTiles (d := d) (g := frame) htrips
    obtain ⟨hin, hout⟩ := hshown.whole (by decide)
    exact ⟨data, frame', hwrite, hread, hin, hout⟩
  · rw [if_neg hone]
    have htrips : ∀ t ∈ pb.getRect.tiles 64, TileTrips readPx ρ t.cols t.rows
        (pb.getImage t) (zrleWriteTile writePx palette t.cols t.rows (pb.getImage t)) := by
      intro t ht
      obtain ⟨⟨hw, -⟩, hh, -⟩ := Rect.tile_bounds (by decide) ht
      refine trips_tile hpx hsize hone (fun hne c hc => ?_) hw hh
      obtain ⟨x, hx, y, hy, rfl⟩ := mem_raster.mp hc
      exact hcolours hne t ht x hx y hy
    obtain ⟨data, frame', hwrite, hread, hshown⟩ :=
      reads_zrleDecodeTiles (d := d) (g := frame) htrips
    obtain ⟨hin, hout⟩ := hshown.whole (by decide)
    exact ⟨data, frame', hwrite, hread, hin, hout⟩

end Tiles

end KasmVNC.Rfb
