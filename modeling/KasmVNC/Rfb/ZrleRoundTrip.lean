import KasmVNC.Rfb.Zrle

/-!
# ZRLE round trip

The encoder leaves a byte of a 32-bit pixel out if the largest pixel has a zero there,
the first byte of the pixel before the last one, and whatever the depth. The decoder
expects four bytes for a depth of more than 24, and of two bytes that are zero it takes
the last one to be missing. So the format decides about the round trip, and
`zrle_round_trip` says which formats make it.
-/

namespace KasmVNC.Rfb

open KasmVNC.Lib Reader PixelFormatOf

variable {κ : Type} {width : PixelWidth}

/-! ## Compact pixels -/

/-- `writePixels` for one pixel. -/
def zrleWritePixel (pf : PixelFormatOf width) (v : RawPixel width.bytes) : List Byte :=
  let pixBuf := pf.maxBuffer.val
  if width ≠ .bpp32 ∨ (pixBuf.getD 0 0 ≠ 0 ∧ pixBuf.getD 3 0 ≠ 0) then v.val
  else if pixBuf.getD 0 0 = 0 then (v.val.drop 1).take 3
  else v.val.take 3

/-- The bytes of a pixel, of which the last ones may be missing. -/
def padPixel (k : ℕ) (bytes : List Byte) : RawPixel k :=
  ⟨(bytes ++ List.replicate k 0).take k, by simp⟩

def readOpaque24A (k : ℕ) : Reader κ (RawPixel k) := padPixel k <$> readBytes 3

def readOpaque24B (k : ℕ) : Reader κ (RawPixel k) :=
  (fun bytes => padPixel k (0 :: bytes)) <$> readBytes 3

def fitsInLS3Bytes (pf : PixelFormatOf width) : Prop := pf.maxPixel < (1 : Pixel) <<< 24

def fitsInMS3Bytes (pf : PixelFormatOf width) : Prop := pf.maxPixel &&& 0xff = 0

instance (pf : PixelFormatOf width) : Decidable (fitsInLS3Bytes pf) :=
  inferInstanceAs (Decidable (_ < _))

instance (pf : PixelFormatOf width) : Decidable (fitsInMS3Bytes pf) :=
  inferInstanceAs (Decidable (_ = _))

/-- The choice between the instances of `zrleDecode` in `decodeRect`, by how each of them
reads a pixel. -/
def zrleReadPixel (pf : PixelFormatOf width) : Reader κ (RawPixel width.bytes) :=
  if width = .bpp32 ∧ pf.depth ≤ 24 then
    if (fitsInLS3Bytes pf ∧ pf.bigEndian = false) ∨ (fitsInMS3Bytes pf ∧ pf.bigEndian = true) then
      readOpaque24A width.bytes
    else if (fitsInLS3Bytes pf ∧ pf.bigEndian = true) ∨
        (fitsInMS3Bytes pf ∧ pf.bigEndian = false) then
      readOpaque24B width.bytes
    else readPixel width.bytes
  else readPixel width.bytes

/-! ## Rectangles -/

/-- `ZRLEEncoder::writeRect` -/
def zrleWriteRect (Z : Zlib) (pf : PixelFormatOf width) (zos : Z.Deflate)
    (palette : Palette (RawPixel width.bytes)) (pb : PreparedBuffer (RawPixel width.bytes)) :
    Except Fault (List Byte × Z.Deflate) :=
  (zrleWriteData (zrleWritePixel pf) palette pb).map fun data =>
    let (mos, zos) := Z.compress zos data
    (be32 (BitVec.ofNat 32 mos.length) ++ mos, zos)

/-- A rectangle on its way to a client. The buffer it is taken from has the client's
format, or the server's if that is `equal`. -/
structure ZrleRect (client : PixelFormatOf width) where
  buffer : PixelFormatOf width
  Z : Zlib
  zos : Z.Deflate
  zis : Z.Inflate
  pb : PreparedBuffer (RawPixel width.bytes)
  maxColours : ℕ
  pos : Point
  frame : Point → RawPixel width.bytes
  equal : client.equal buffer
  inStep : Z.InStep zos zis
  maxColours_le : maxColours ≤ 127

namespace ZrleRect

variable {client : PixelFormatOf width} (r : ZrleRect client)

def palette : Palette (RawPixel width.bytes) := paletteOf r.maxColours r.pb.pixels

/-- What the encoder writes. -/
def written : Except Fault (List Byte × r.Z.Deflate) :=
  zrleWriteRect r.Z r.buffer r.zos r.palette r.pb

/-- The compressed data has a length that fits an `int`. -/
def Fits : Prop :=
  ∀ data, zrleWriteData (zrleWritePixel r.buffer) r.palette r.pb = .ok data →
    (r.Z.compress r.zos data).1.length < 2 ^ 31

/-- The client reads the bytes as a whole, decodes the colours of the buffer from them,
and the two ends of the compressed stream are in step again. -/
def Works : Prop :=
  ∃ bytes zos' frame' zis', r.written = .ok (bytes, zos') ∧
    Reads (zrleReadRect : Reader Empty _) bytes bytes ∧
    Reads (zrleDecode (zrleReadPixel client) r.Z r.zis (r.pb.getRect.translate r.pos) r.frame :
      Reader Empty _) bytes (frame', zis') ∧
    r.Z.InStep zos' zis' ∧
    (∀ p ∈ Region.ofRect r.pb.getRect,
      client.rgb (frame' (p + r.pos)) = r.buffer.rgb (r.pb.pixel p)) ∧
    ∀ p ∉ Region.ofRect r.pb.getRect, frame' (p + r.pos) = r.frame (p + r.pos)

end ZrleRect

/-- Pixels of this format are as compact for the decoder as for the encoder: one of the
outer bytes may be missing, if there is no other one to choose. -/
def Compatible (client : PixelFormatOf width) : Prop :=
  let pixBuf := client.maxBuffer.val
  width ≠ .bpp32 ∨ (pixBuf.getD 0 0 ≠ 0 ∧ pixBuf.getD 3 0 ≠ 0) ∨
    (client.depth ≤ 24 ∧ (pixBuf.getD 0 0 ≠ 0 ∨ pixBuf.getD 3 0 ≠ 0))

instance (client : PixelFormatOf width) : Decidable (Compatible client) :=
  inferInstanceAs (Decidable (_ ∨ _))

/-! ## The missing byte -/

section Bytes

variable {pf : PixelFormatOf .bpp32}

theorem lt_shiftLeft_iff (p : Pixel) : p < (1 : Pixel) <<< 24 ↔ p.extractLsb' 24 8 = 0 := by
  rw [BitVec.lt_def, ← BitVec.toNat_inj, BitVec.extractLsb'_toNat, Nat.shiftRight_eq_div_pow]
  have hone : ((1 : Pixel) <<< 24).toNat = 2 ^ 24 := rfl
  have hzero : (0 : Byte).toNat = 0 := rfl
  have hlt := p.isLt
  rw [hone, hzero]
  omega

theorem and_eq_zero_iff (p : Pixel) : p &&& 0xff = 0 ↔ p.extractLsb' 0 8 = 0 := by
  rw [← BitVec.toNat_inj, ← BitVec.toNat_inj, BitVec.extractLsb'_toNat, BitVec.toNat_and]
  have hmask : (0xff : Pixel).toNat = 2 ^ 8 - 1 := rfl
  rw [hmask, Nat.and_two_pow_sub_one_eq_mod, Nat.shiftRight_zero]
  rfl

theorem val_maxBuffer (pf : PixelFormatOf .bpp32) : pf.maxBuffer.val =
    if pf.bigEndian then (pixelBytes 4 pf.maxPixel).reverse else pixelBytes 4 pf.maxPixel := rfl

/-- The last byte is what `zrleDecode24A` fills in. -/
theorem last_byte_iff : (fitsInLS3Bytes pf ∧ pf.bigEndian = false) ∨
    (fitsInMS3Bytes pf ∧ pf.bigEndian = true) ↔ pf.maxBuffer.val.getD 3 0 = 0 := by
  unfold fitsInLS3Bytes fitsInMS3Bytes
  rw [lt_shiftLeft_iff, and_eq_zero_iff, val_maxBuffer]
  cases pf.bigEndian <;> simp [pixelBytes, List.range_succ]

/-- The first byte is what `zrleDecode24B` fills in. -/
theorem first_byte_iff : (fitsInLS3Bytes pf ∧ pf.bigEndian = true) ∨
    (fitsInMS3Bytes pf ∧ pf.bigEndian = false) ↔ pf.maxBuffer.val.getD 0 0 = 0 := by
  unfold fitsInLS3Bytes fitsInMS3Bytes
  rw [lt_shiftLeft_iff, and_eq_zero_iff, val_maxBuffer]
  cases pf.bigEndian <;> simp [pixelBytes, List.range_succ]

theorem zrleReadPixel_24A (hdepth : pf.depth ≤ 24) (hlast : pf.maxBuffer.val.getD 3 0 = 0) :
    (zrleReadPixel pf : Reader κ _) = readOpaque24A 4 := by
  unfold zrleReadPixel
  rw [if_pos ⟨rfl, hdepth⟩, if_pos (last_byte_iff.mpr hlast)]
  rfl

theorem zrleReadPixel_24B (hdepth : pf.depth ≤ 24) (hlast : pf.maxBuffer.val.getD 3 0 ≠ 0)
    (hfirst : pf.maxBuffer.val.getD 0 0 = 0) :
    (zrleReadPixel pf : Reader κ _) = readOpaque24B 4 := by
  unfold zrleReadPixel
  rw [if_pos ⟨rfl, hdepth⟩, if_neg (mt last_byte_iff.mp hlast),
    if_pos (first_byte_iff.mpr hfirst)]
  rfl

theorem zrleReadPixel_deep (hdepth : 24 < pf.depth) :
    (zrleReadPixel pf : Reader κ _) = readPixel 4 := by
  unfold zrleReadPixel
  rw [if_neg fun h => by omega]
  rfl

theorem zrleReadPixel_full (hfirst : pf.maxBuffer.val.getD 0 0 ≠ 0)
    (hlast : pf.maxBuffer.val.getD 3 0 ≠ 0) : (zrleReadPixel pf : Reader κ _) = readPixel 4 := by
  unfold zrleReadPixel
  by_cases hdepth : pf.depth ≤ 24
  · rw [if_pos ⟨rfl, hdepth⟩, if_neg (mt last_byte_iff.mp hlast),
      if_neg (mt first_byte_iff.mp hfirst)]
    rfl
  · rw [if_neg fun h => hdepth h.2]
    rfl

/-- Three bytes of a pixel are read, and the fourth is made up. -/
theorem reads_opaque24 (f : List Byte → RawPixel 4) {bytes : List Byte} (h : bytes.length = 3) :
    Reads (f <$> readBytes 3 : Reader κ _) bytes (f bytes) := by
  have hread := reads_bytes (κ := κ) bytes
  rw [h] at hread
  rw [map_eq_pure_bind]
  exact Consumes.last hread rfl

/-- A byte without channel bits makes no difference. -/
theorem rgb_of_missing {i : ℕ} (hi : i < 4) (hzero : pf.maxBuffer.val.getD i 0 = 0)
    {v w : RawPixel 4} (h : ∀ j < 4, j ≠ i → v.val.getD j 0 = w.val.getD j 0) :
    pf.rgb v = pf.rgb w := by
  refine rgb_congr fun c hc u hu => h _ (place_lt ?_) (place_ne_of_zero hzero hi c hc u hu)
  obtain ⟨-, hfits⟩ := channel_bounds hc
  omega

/-- The bytes of a pixel of 32 bits. -/
theorem RawPixel.four (v : RawPixel 4) : ∃ a b c d, v = ⟨[a, b, c, d], rfl⟩ := by
  obtain ⟨bytes, hlen⟩ := v
  obtain ⟨a, b, c, d, rfl⟩ := List.length_eq_four.mp hlen
  exact ⟨a, b, c, d, rfl⟩

end Bytes

/-- A pixel is read back if it has all bytes, or the ones the format needs. -/
theorem reads_zrlePixel {client buffer : PixelFormatOf width} (heq : client.equal buffer)
    (hcompat : Compatible client) : ∃ ρ : RawPixel width.bytes → RawPixel width.bytes,
    (∀ v, Reads (zrleReadPixel client : Reader κ _) (zrleWritePixel buffer v) (ρ v)) ∧
      ∀ v, client.rgb (ρ v) = client.rgb v := by
  unfold Compatible at hcompat
  unfold zrleWritePixel
  rw [← equal_maxBuffer heq]
  dsimp only at hcompat ⊢
  by_cases hwidth : width = .bpp32
  · subst hwidth
    have hthree : ∀ v : RawPixel 4, v.val.length = 4 := fun v => v.property
    by_cases hfirst : client.maxBuffer.val.getD 0 0 = 0
    · -- the first byte is left out, so the last one must be there
      obtain ⟨hdepth, hlast⟩ : client.depth ≤ 24 ∧ client.maxBuffer.val.getD 3 0 ≠ 0 := by
        rcases hcompat with h | h | ⟨hdepth, h | h⟩
        · exact absurd rfl h
        · exact absurd hfirst h.1
        · exact absurd hfirst h
        · exact ⟨hdepth, h⟩
      refine ⟨fun v => padPixel 4 (0 :: (v.val.drop 1).take 3), fun v => ?_, fun v => ?_⟩
      · rw [if_neg (not_or.mpr ⟨not_not.mpr rfl, fun h => h.1 hfirst⟩), if_pos hfirst,
          zrleReadPixel_24B hdepth hlast hfirst]
        exact reads_opaque24 _ (by simp [hthree v])
      · refine rgb_of_missing (i := 0) (by decide) hfirst fun j hj hne => ?_
        obtain ⟨a, b, c, d, rfl⟩ := RawPixel.four v
        obtain rfl | rfl | rfl : j = 1 ∨ j = 2 ∨ j = 3 := by omega
        all_goals rfl
    · by_cases hlast : client.maxBuffer.val.getD 3 0 = 0
      · have hdepth : client.depth ≤ 24 := by
          rcases hcompat with h | h | h
          · exact absurd rfl h
          · exact absurd hlast h.2
          · exact h.1
        refine ⟨fun v => padPixel 4 (v.val.take 3), fun v => ?_, fun v => ?_⟩
        · rw [if_neg (not_or.mpr ⟨not_not.mpr rfl, fun h => h.2 hlast⟩), if_neg hfirst,
            zrleReadPixel_24A hdepth hlast]
          exact reads_opaque24 _ (by simp [hthree v])
        · refine rgb_of_missing (i := 3) (by decide) hlast fun j hj hne => ?_
          obtain ⟨a, b, c, d, rfl⟩ := RawPixel.four v
          obtain rfl | rfl | rfl : j = 0 ∨ j = 1 ∨ j = 2 := by omega
          all_goals rfl
      · refine ⟨id, fun v => ?_, fun _ => rfl⟩
        rw [if_pos (Or.inr ⟨hfirst, hlast⟩), zrleReadPixel_full hfirst hlast]
        exact reads_pixel v
  · refine ⟨id, fun v => ?_, fun _ => rfl⟩
    unfold zrleReadPixel
    rw [if_pos (Or.inl hwidth), if_neg fun h => hwidth h.1]
    exact reads_pixel v

/-! ## The whole rectangle -/

theorem toNat_signExtend {length : BitVec 32} (h : length.toNat < 2 ^ 31) :
    (length.signExtend 64).toNat = length.toNat := by
  have hmsb : length.msb = false := BitVec.msb_eq_false_iff_two_mul_lt.mpr (by omega)
  rw [BitVec.signExtend_eq_setWidth_of_msb_false hmsb, BitVec.toNat_setWidth,
    Nat.mod_eq_of_lt (by omega)]

theorem le_toNat_signExtend {length : BitVec 32} (h : 2 ^ 31 ≤ length.toNat) :
    2 ^ 32 ≤ (length.signExtend 64).toNat := by
  have hmsb : length.msb = true := BitVec.msb_eq_true_iff_two_mul_ge.mpr (by omega)
  rw [BitVec.toNat_signExtend, hmsb, if_pos rfl]
  omega

theorem reads_counted_mos {mos : List Byte} (h : mos.length < 2 ^ 31) :
    Reads (readCounted : Reader κ _) (be32 (BitVec.ofNat 32 mos.length) ++ mos) mos := by
  refine Consumes.read (reads_u32 _) ?_
  have hlen : (BitVec.ofNat 32 mos.length).toNat = mos.length := by
    rw [BitVec.toNat_ofNat, Nat.mod_eq_of_lt (by omega)]
  rw [toNat_signExtend (by omega), hlen]
  exact reads_bytes mos

theorem reads_zrleReadRect {mos : List Byte} (h : mos.length < 2 ^ 32) :
    Reads (zrleReadRect : Reader κ _) (be32 (BitVec.ofNat 32 mos.length) ++ mos)
      (be32 (BitVec.ofNat 32 mos.length) ++ mos) := by
  refine Consumes.read (reads_u32 _) ?_
  have hlen : (BitVec.ofNat 32 mos.length).toNat = mos.length := by
    rw [BitVec.toNat_ofNat, Nat.mod_eq_of_lt (by omega)]
  rw [hlen]
  exact Consumes.last (reads_bytes mos) rfl

/-- Decoding what has been decompressed. -/
theorem zrleDecode_eq {readPx : Reader κ (RawPixel width.bytes)} {Z : Zlib} {zis zis' : Z.Inflate}
    {r : Rect} {frame : Point → RawPixel width.bytes} {mos data rest : List Byte} {calls : List κ}
    (hlen : mos.length < 2 ^ 31) (hdecompress : Z.decompress zis mos = .ok (data, zis')) :
    zrleDecode readPx Z zis r frame ⟨be32 (BitVec.ofNat 32 mos.length) ++ mos ++ rest, calls⟩ =
      (zrleDecodeTiles readPx (r.tiles 64) frame ⟨data, []⟩).map fun res =>
        ((res.1, zis'), ⟨rest, calls⟩) := by
  unfold zrleDecode
  rw [Consumes.last (reads_counted_mos hlen) rfl, hdecompress]
  dsimp only
  cases zrleDecodeTiles readPx (r.tiles 64) frame ⟨data, []⟩ with
  | error msg => rfl
  | ok res => rfl

/-- A length that does not fit is noticed by one of the two reads. -/
theorem length_lt_of_reads {readPx : Reader κ (RawPixel width.bytes)} {Z : Zlib} {zis : Z.Inflate}
    {r : Rect} {frame : Point → RawPixel width.bytes} {mos : List Byte}
    {res : (Point → RawPixel width.bytes) × Z.Inflate}
    (hrect : Reads (zrleReadRect : Reader κ _) (be32 (BitVec.ofNat 32 mos.length) ++ mos)
      (be32 (BitVec.ofNat 32 mos.length) ++ mos))
    (hdec : Reads (zrleDecode readPx Z zis r frame) (be32 (BitVec.ofNat 32 mos.length) ++ mos)
      res) : mos.length < 2 ^ 31 := by
  generalize hlength : BitVec.ofNat 32 mos.length = length at hrect hdec
  have hcopy := hrect [] []
  have hcount := hdec [] []
  rw [List.append_assoc, List.append_nil] at hcopy hcount
  unfold zrleReadRect at hcopy
  unfold zrleDecode readCounted at hcount
  rw [Consumes.last (reads_u32 length) rfl] at hcopy
  rw [bind_assoc, Consumes.last (reads_u32 length) rfl] at hcount
  -- both read the length, and then as many bytes as they take it to be
  change Except.bind (readBytes length.toNat ⟨mos, []⟩) _ = _ at hcopy
  change Except.bind (readBytes (length.signExtend 64).toNat ⟨mos, []⟩) _ = _ at hcount
  unfold readBytes at hcopy hcount
  dsimp only at hcopy hcount
  by_cases hall : length.toNat ≤ mos.length
  · rw [if_pos hall] at hcopy
    have hdrop : mos.drop length.toNat = [] :=
      congrArg (fun res => res.2.input) (Except.ok.inj hcopy)
    have hle := List.drop_eq_nil_iff.mp hdrop
    have hlt := length.isLt
    by_cases hfits : mos.length < 2 ^ 31
    · exact hfits
    · have hbig : 2 ^ 32 ≤ (length.signExtend 64).toNat := le_toNat_signExtend (by omega)
      rw [if_neg (by omega)] at hcount
      cases hcount
  · rw [if_neg hall] at hcopy
    cases hcopy

namespace ZrleRect

variable {client : PixelFormatOf width} {r : ZrleRect client}

theorem works_of_fits (hcompat : Compatible client) (hfits : r.Fits) : r.Works := by
  obtain ⟨ρ, hpx, hrgb⟩ := reads_zrlePixel (κ := Empty) r.equal hcompat
  have hmax := r.maxColours_le
  have hpalette : (r.palette.size ≠ 0 → Tallies r.palette r.pb.pixels) ∧ r.palette.size ≤ 127 := by
    unfold palette
    rcases paletteOf_spec r.maxColours r.pb.pixels with hempty | ⟨htally, hle⟩
    · rw [hempty]
      exact ⟨fun hne => absurd rfl hne, Nat.zero_le _⟩
    · exact ⟨fun _ => htally, by omega⟩
  obtain ⟨data, frame', hdata, hread, hin, hout⟩ :=
    zrle_format hpx hpalette.1 hpalette.2 r.pos r.frame
  have hlen := hfits data hdata
  have hlen' := hlen.trans (show 2 ^ 31 < 2 ^ 32 by decide)
  obtain ⟨zis', hdecompress, hstep⟩ := r.Z.lossless r.inStep data
  let mos := (r.Z.compress r.zos data).1
  refine ⟨be32 (BitVec.ofNat 32 mos.length) ++ mos, (r.Z.compress r.zos data).2, frame', zis',
    ?_, ?_, ?_, hstep, ?_, hout⟩
  · unfold written zrleWriteRect
    rw [hdata]
    rfl
  · exact reads_zrleReadRect hlen'
  · intro rest calls
    have htiles := hread [] []
    rw [List.append_nil] at htiles
    rw [zrleDecode_eq hlen hdecompress, htiles]
    rfl
  · intro p hp
    rw [hin p hp, hrgb, equal_rgb r.equal]

theorem fits_of_works (h : r.Works) : r.Fits := by
  obtain ⟨bytes, zos', frame', zis', hwritten, hrect, hdec, -, -⟩ := h
  intro data hdata
  unfold written zrleWriteRect at hwritten
  rw [hdata] at hwritten
  obtain ⟨rfl, rfl⟩ := Prod.mk.inj (Except.ok.inj hwritten)
  exact length_lt_of_reads hrect hdec

end ZrleRect

/-! ## Other formats -/

/-- One pixel, which is the largest one of the format. -/
def largestPixel (client : PixelFormatOf width) : ZrleRect client where
  buffer := client
  Z := .stored
  zos := ()
  zis := ()
  pb := ⟨1, 1, fun _ => client.maxBuffer⟩
  maxColours := 2
  pos := (0, 0)
  frame := fun _ => default
  equal := equal_refl client
  inStep := trivial
  maxColours_le := by decide

/-- It is sent as a solid tile. -/
theorem largestPixel_data (client : PixelFormatOf width) :
    zrleWriteData (zrleWritePixel client) (largestPixel client).palette (largestPixel client).pb =
      .ok (1 :: zrleWritePixel client client.maxBuffer) := by
  have hcolours : (largestPixel client).palette.colours = [client.maxBuffer] := by
    show (paletteOf 2 [client.maxBuffer]).colours = [client.maxBuffer]
    simp [paletteOf, analyseRect, analysePixels, countRun, Palette.insert, addPixels,
      Palette.colours, Palette.size, KasmVNC.Rfb.place]
  have hsize : (largestPixel client).palette.size = 1 := by
    have hlen : (largestPixel client).palette.colours.length = _ := List.length_map _
    rw [hcolours] at hlen
    exact hlen.symm
  have hcolour : (largestPixel client).palette.getColour 0 = client.maxBuffer := by
    rw [Palette.getColour, hcolours]
    rfl
  unfold zrleWriteData
  rw [if_pos hsize, hcolour]
  simp [zrleWriteSolid, largestPixel]

/-- Decoding one solid tile. -/
theorem zrleDecodeTiles_solid (readPx : Reader κ (RawPixel width.bytes)) (t : Rect)
    (frame : Point → RawPixel width.bytes) (bytes : List Byte) (calls : List κ) :
    zrleDecodeTiles readPx [t] frame ⟨1 :: bytes, calls⟩ =
      (readPx ⟨bytes, calls⟩).map fun res => (imageRect t (fun _ _ => res.1) frame, res.2) := by
  unfold zrleDecodeTiles zrleDecodeTile
  show Except.bind (Except.bind (Except.bind (readPx ⟨bytes, calls⟩) _) _) _ = _
  cases readPx ⟨bytes, calls⟩ with
  | error msg => rfl
  | ok res => rfl

/-- What the client makes of it. -/
theorem largestPixel_decoded {client : PixelFormatOf width} (h : (largestPixel client).Works) :
    ∃ v s, (zrleReadPixel client : Reader Empty _) ⟨zrleWritePixel client client.maxBuffer, []⟩ =
      .ok (v, s) ∧ client.rgb v = client.rgb client.maxBuffer := by
  obtain ⟨bytes, zos', frame', zis', hwritten, hrect, hdec, -, hin, -⟩ := h
  unfold ZrleRect.written zrleWriteRect at hwritten
  rw [show zrleWriteData (zrleWritePixel (largestPixel client).buffer) _ _ = _ from
    largestPixel_data client] at hwritten
  obtain ⟨rfl, rfl⟩ := Prod.mk.inj (Except.ok.inj hwritten)
  have hlen := length_lt_of_reads hrect hdec
  have hdecoded := hdec [] []
  have hstored : (largestPixel client).Z.decompress (largestPixel client).zis
      ((largestPixel client).Z.compress (largestPixel client).zos
        (1 :: zrleWritePixel client client.maxBuffer)).1 =
      .ok (1 :: zrleWritePixel client client.maxBuffer, (largestPixel client).zis) := rfl
  rw [zrleDecode_eq hlen hstored] at hdecoded
  have htiles : ((largestPixel client).pb.getRect.translate (largestPixel client).pos).tiles 64 =
      [⟨(0, 0), (1, 1)⟩] := rfl
  rw [htiles, zrleDecodeTiles_solid] at hdecoded
  cases hpx : (zrleReadPixel client : Reader Empty _)
      ⟨zrleWritePixel client client.maxBuffer, []⟩ with
  | error msg =>
    rw [hpx] at hdecoded
    cases hdecoded
  | ok res =>
    rw [hpx] at hdecoded
    have hframe := congrArg (fun res => res.1.1) (Except.ok.inj hdecoded)
    refine ⟨res.1, res.2, rfl, ?_⟩
    have horigin : ((0, 0) : Point) ∈ Region.ofRect ⟨(0, 0), (1, 1)⟩ := by decide
    have hcolour := hin (0, 0) horigin
    rw [← show _ = frame' from hframe] at hcolour
    exact hcolour

section Largest

variable {pf : PixelFormatOf .bpp32}

theorem length_zrleWritePixel
    (hout : pf.maxBuffer.val.getD 0 0 = 0 ∨ pf.maxBuffer.val.getD 3 0 = 0) (v : RawPixel 4) :
    (zrleWritePixel pf v).length = 3 := by
  have hv : v.val.length = 4 := v.property
  unfold zrleWritePixel
  dsimp only
  rw [if_neg]
  · split <;> simp [hv]
  · rintro (h | ⟨hfirst, hlast⟩)
    · exact h rfl
    · exact hout.elim hfirst hlast

/-- The other three bytes, in the places of the first three. -/
theorem rgb_moved (hfirst : pf.maxBuffer.val.getD 0 0 = 0) (hlast : pf.maxBuffer.val.getD 3 0 = 0) :
    pf.rgb (padPixel 4 ((pf.maxBuffer.val.drop 1).take 3)) ≠ pf.rgb pf.maxBuffer := by
  intro h
  have hbits := bits_of_rgb_max h
  obtain ⟨a, b, c, d, hbuf⟩ := RawPixel.four pf.maxBuffer
  have hd : d = 0 := by
    rw [hbuf] at hlast
    exact hlast
  rw [hbuf, hd] at hbits
  -- there are no channel bits in the third byte, so there are none in the second one
  have hthird : ∀ ch ∈ pf.channels, ∀ u < ch.bits, pf.place (ch.shift + u) ≠ 2 := by
    intro ch hch u hu hplace
    have hbit := hbits ch hch u hu
    rw [hplace] at hbit
    simp [padPixel] at hbit
  have hc : c = 0 := by
    refine BitVec.eq_of_getLsbD_eq fun t ht => ?_
    by_contra hbit
    have hset : (pf.maxBuffer.val.getD 2 0).getLsbD t = true := by
      rw [hbuf]
      simpa using hbit
    obtain ⟨ch, hch, u, hu, hplace, -⟩ := (maxBuffer_bit (by decide) ht).mp hset
    exact hthird ch hch u hu hplace
  have hred : pf.red ∈ pf.channels := List.mem_cons_self
  obtain ⟨⟨hpos, -⟩, hfits⟩ := channel_bounds hred
  have hlt : pf.place (pf.red.shift + 0) < 4 := place_lt (by omega)
  have hbit := hbits pf.red hred 0 hpos
  have h0 := place_ne_of_zero hfirst (by decide) pf.red hred 0 hpos
  have h3 := place_ne_of_zero hlast (by decide) pf.red hred 0 hpos
  have h2 := hthird pf.red hred 0 hpos
  have h1 : pf.place (pf.red.shift + 0) = 1 := by omega
  rw [h1, hc] at hbit
  simp [padPixel] at hbit

end Largest

theorem largestPixel_lost {client : PixelFormatOf width} (hincompat : ¬Compatible client) :
    (largestPixel client).Fits ∧ ¬(largestPixel client).Works := by
  unfold Compatible at hincompat
  dsimp only at hincompat
  push Not at hincompat
  obtain ⟨rfl, houter, hdeep⟩ := hincompat
  have hthree : (zrleWritePixel client client.maxBuffer).length = 3 := by
    refine length_zrleWritePixel ?_ _
    by_cases hfirst : client.maxBuffer.val.getD 0 0 = 0
    · exact Or.inl hfirst
    · exact Or.inr (houter hfirst)
  constructor
  · intro data hdata
    obtain rfl := Except.ok.inj ((largestPixel_data client).symm.trans hdata)
    show (1 :: zrleWritePixel client client.maxBuffer).length < 2 ^ 31
    rw [List.length_cons, hthree]
    decide
  · intro hworks
    obtain ⟨v, s, hread, hcolour⟩ := largestPixel_decoded hworks
    by_cases hdepth : client.depth ≤ 24
    · -- the client puts the three bytes into the wrong places
      obtain ⟨hfirst, hlast⟩ := hdeep hdepth
      rw [zrleReadPixel_24A hdepth hlast] at hread
      have hpad := reads_opaque24 (κ := Empty) (padPixel 4) hthree [] []
      rw [List.append_nil] at hpad
      obtain ⟨rfl, -⟩ := Prod.mk.inj (Except.ok.inj (hpad.symm.trans hread))
      have hbytes : zrleWritePixel client client.maxBuffer =
          (client.maxBuffer.val.drop 1).take 3 := by
        unfold zrleWritePixel
        dsimp only
        rw [if_neg (not_or.mpr ⟨not_not.mpr rfl, fun h => h.1 hfirst⟩), if_pos hfirst]
      rw [hbytes] at hcolour
      exact rgb_moved hfirst hlast hcolour
    · -- the client waits for a fourth byte
      rw [zrleReadPixel_deep (by omega)] at hread
      unfold readPixel at hread
      rw [dif_neg (by rw [hthree]; decide)] at hread
      cases hread

/-- **ZRLE round trip.** The rectangles of a client make it, if they are not too long for
an `int`, exactly if the format is one both ends take to be as compact. -/
theorem zrle_round_trip (client : PixelFormatOf width) :
    (∀ r : ZrleRect client, r.Works ↔ r.Fits) ↔ Compatible client := by
  constructor
  · intro h
    by_contra hincompat
    obtain ⟨hfits, hlost⟩ := largestPixel_lost hincompat
    exact hlost ((h (largestPixel client)).mpr hfits)
  · intro hcompat r
    exact ⟨ZrleRect.fits_of_works, ZrleRect.works_of_fits hcompat⟩

/-- Eight bits for each colour, and a depth that counts the unused ones too. -/
def deepFormat : PixelFormatOf .bpp32 where
  bpp := 32
  depth := 32
  bigEndian := false
  trueColour := true
  redMax := 255
  greenMax := 255
  blueMax := 255
  redShift := 16
  greenShift := 8
  blueShift := 0
  sane := by decide
  bpp_eq := rfl

/-- A white pixel is lost in this format. -/
theorem zrle_loses_pixel :
    (largestPixel deepFormat).Fits ∧ ¬(largestPixel deepFormat).Works :=
  have hincompat : ¬Compatible deepFormat := by decide
  largestPixel_lost hincompat

end KasmVNC.Rfb
