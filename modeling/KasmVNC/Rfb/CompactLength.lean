import KasmVNC.Rfb.QoiRoundTrip
import KasmVNC.Rfb.SubRects
import KasmVNC.Rfb.TightRoundTrip

/-!
# The compact length

Every encoder of the Tight family writes the length of its payload in one to three bytes of
seven, seven and eight bits. Each class has a `writeCompact` of its own, and all of them agree.
The length comes back if it has up to 22 bits. A rectangle that is cut into tiles stays far
below that, but the legacy video mode hands the whole screen to the encoder.
-/

namespace KasmVNC.Rfb

open KasmVNC.Lib

variable {κ : Type}

/-! ## The copies of `writeCompact` -/

/-- `TightJPEGEncoder::writeCompact` -/
def TightJPEGEncoder.writeCompact (value : BitVec 32) : List Byte :=
  -- Copied from TightEncoder as it's overkill to inherit just for this
  let b := (value &&& 0x7f).setWidth 8
  if value ≤ 0x7f then [b]
  else
    let c := ((value >>> 7) &&& 0x7f).setWidth 8
    if value ≤ 0x3fff then [b ||| 0x80, c]
    else [b ||| 0x80, c ||| 0x80, ((value >>> 14) &&& 0xff).setWidth 8]

/-- `TightWEBPEncoder::writeCompact` -/
def TightWEBPEncoder.writeCompact (value : BitVec 32) : List Byte :=
  -- Copied from TightEncoder as it's overkill to inherit just for this
  let b := (value &&& 0x7f).setWidth 8
  if value ≤ 0x7f then [b]
  else
    let c := ((value >>> 7) &&& 0x7f).setWidth 8
    if value ≤ 0x3fff then [b ||| 0x80, c]
    else [b ||| 0x80, c ||| 0x80, ((value >>> 14) &&& 0xff).setWidth 8]

/-- `TightQOIEncoder::writeCompact` -/
def TightQOIEncoder.writeCompact (value : BitVec 32) : List Byte :=
  -- Copied from TightEncoder as it's overkill to inherit just for this
  let b := (value &&& 0x7f).setWidth 8
  if value ≤ 0x7f then [b]
  else
    let c := ((value >>> 7) &&& 0x7f).setWidth 8
    if value ≤ 0x3fff then [b ||| 0x80, c]
    else [b ||| 0x80, c ||| 0x80, ((value >>> 14) &&& 0xff).setWidth 8]

/-- `encoders::write_compact`, which the video encoders call. It takes an `int`. -/
def encoders.write_compact (value : BitVec 32) : List Byte :=
  let b := (value &&& 0x7f).setWidth 8
  if value.sle 0x7f then [b]
  else
    let c := ((value.sshiftRight 7) &&& 0x7f).setWidth 8
    if value.sle 0x3fff then [b ||| 0x80, c]
    else [b ||| 0x80, c ||| 0x80, ((value.sshiftRight 14) &&& 0xff).setWidth 8]

/-- The encoders that write a compact length. -/
inductive CompactWriter
  | tight
  | jpeg
  | webp
  | qoi
  | video
deriving DecidableEq

/-- What is written for a payload of `n` bytes. The length is a `size_t` or an `int`, and
becomes a `U32` or an `int`. -/
def CompactWriter.write (c : CompactWriter) (n : ℕ) : List Byte :=
  match c with
  | tight => writeCompact (.ofNat 32 n)
  | jpeg => TightJPEGEncoder.writeCompact (.ofNat 32 n)
  | webp => TightWEBPEncoder.writeCompact (.ofNat 32 n)
  | qoi => TightQOIEncoder.writeCompact (.ofNat 32 n)
  | video => encoders.write_compact (.ofNat 32 n)

/-- An `int` that is not negative is written like a `U32`. -/
theorem write_compact_eq {value : BitVec 32} (h : value.msb = false) :
    encoders.write_compact value = writeCompact value := by
  have hle : ∀ bound : BitVec 32, bound.msb = false → value.sle bound = decide (value ≤ bound) := by
    intro bound hbound
    rw [BitVec.sle_eq_ule_of_msb_eq (h.trans hbound.symm)]
    rfl
  unfold encoders.write_compact writeCompact
  simp only [hle 0x7f rfl, hle 0x3fff rfl, BitVec.sshiftRight_eq_of_msb_false h, decide_eq_true_eq]

theorem CompactWriter.write_eq {n : ℕ} (h : n < 2 ^ 31) (c : CompactWriter) :
    c.write n = writeCompact (.ofNat 32 n) := by
  cases c with
  | tight => rfl
  | jpeg => rfl
  | webp => rfl
  | qoi => rfl
  | video =>
    refine write_compact_eq (BitVec.msb_eq_false_iff_two_mul_lt.mpr ?_)
    rw [BitVec.toNat_ofNat]
    omega

/-! ## Reading it back -/

/-- The decoder takes these bytes, and no others, for the length `n`. -/
def ReadsBack (κ : Type) (bytes : List Byte) (n : ℕ) : Prop :=
  ∃ v : BitVec 32, v.toNat = n ∧ Reads (readCompact : Reader κ _) bytes v

theorem readsBack_iff (n : ℕ) : ReadsBack κ (writeCompact (.ofNat 32 n)) n ↔ n < 2 ^ 22 := by
  have hvalue : ((BitVec.ofNat 32 n) &&& 0x3fffff).toNat = n % 2 ^ 32 % 2 ^ 22 := by
    rw [toNat_and_mask, BitVec.toNat_ofNat]
  constructor
  · rintro ⟨v, hv, hreads⟩
    rw [hreads.unique (reads_compact _), hvalue] at hv
    rw [← hv]
    exact Nat.mod_lt _ (by decide)
  · intro h
    refine ⟨_, ?_, reads_compact _⟩
    rw [hvalue]
    omega

/-- **Compact lengths.** All encoders write the same bytes, and the length comes back, for the
lengths of up to 22 bits. -/
theorem compact_length_iff (n : ℕ) :
    (∀ c : CompactWriter, c.write n = CompactWriter.tight.write n ∧ ReadsBack κ (c.write n) n) ↔
      n < 2 ^ 22 := by
  constructor
  · intro h
    exact (readsBack_iff n).mp (h .tight).2
  · intro h c
    have hint : n < 2 ^ 31 := by omega
    rw [c.write_eq hint, CompactWriter.write_eq hint]
    exact ⟨rfl, (readsBack_iff n).mpr h⟩

/-! ## The whole screen in video mode -/

/-- If every pixel is far from the one before it, all of them take four bytes. -/
theorem qoiChunks_length_far {pxs : List QoiRgba} {prev : QoiRgba}
    (h : (prev :: pxs).IsChain fun a b => b ≠ a ∧ (qoiDifference b a).length = 4) :
    (qoiChunks prev 0 pxs).length = 4 * pxs.length := by
  induction pxs generalizing prev with
  | nil => rfl
  | cons px pxs ih =>
    obtain ⟨⟨hne, hfar⟩, htail⟩ := List.isChain_cons_cons.mp h
    rw [qoiChunks, if_neg hne, if_neg (Nat.lt_irrefl 0), List.nil_append, List.length_append,
      hfar, ih htail, List.length_cons]
    omega

/-- Red and blue columns. -/
def stripes : Block (RawPixel 4) := fun x _ => if x % 2 = 0 then redPixel else bluePixel

/-- A screen of 1920x1080 pixels. -/
def stripedScreen : ℕ → Option (RawPixel 4) := fun i => some (stripes (i % 1920) (i / 1920))

theorem getElem?_stripes {i : ℕ} (hi : i < 1920 * 1080) :
    (raster 1920 1080 stripes)[i]? = some (if i % 2 = 0 then redPixel else bluePixel) := by
  have hx : i % 1920 < 1920 := Nat.mod_lt _ (by decide)
  have hy : i / 1920 < 1080 := by omega
  have hpixel := getElem?_raster stripes hx hy
  rw [Nat.mul_comm, Nat.div_add_mod] at hpixel
  have hparity : i % 1920 % 2 = i % 2 := by omega
  rw [hpixel, stripes, hparity]

theorem getElem_stripes {i : ℕ} (hi : i < (raster 1920 1080 stripes).length) :
    (raster 1920 1080 stripes)[i] = if i % 2 = 0 then redPixel else bluePixel := by
  have hlt : i < 1920 * 1080 := by
    rw [length_raster] at hi
    omega
  rw [← Option.some_inj, ← List.getElem?_eq_getElem hi, getElem?_stripes hlt]

/-- Neighbours are far from each other, also from one row to the next. -/
theorem stripes_far :
    (QoiRgba.start :: (raster 1920 1080 stripes).map (qoiColour true)).IsChain
      fun a b => b ≠ a ∧ (qoiDifference b a).length = 4 := by
  refine List.isChain_cons.mpr ⟨fun b hb => ?_, List.isChain_iff_getElem.mpr fun i hi => ?_⟩
  · rw [List.head?_map, List.head?_eq_getElem?, getElem?_stripes (by decide), if_pos rfl] at hb
    obtain rfl : qoiColour true redPixel = b := Option.some.inj hb
    decide
  · rw [List.getElem_map, List.getElem_map, getElem_stripes, getElem_stripes]
    by_cases heven : i % 2 = 0
    · rw [if_pos heven, if_neg (by omega)]
      decide
    · rw [if_neg heven, if_pos (by omega)]
      decide

/-- What the encoder makes of it. -/
theorem striped_payload : ∃ out, qoiCompressOnly pfRGBX stripedScreen 1920 1080 1920 = .ok out ∧
    out.length = 8294422 := by
  have hmemory : InMemory stripedScreen 1920 1080 1920 stripes := by
    intro y hy x hx
    have hcolumn : (y * 1920 + x) % 1920 = x := by omega
    have hrow : (y * 1920 + x) / 1920 = y := by omega
    rw [stripedScreen, hcolumn, hrow]
  have haccepted : (⟨1920, 1080, 4, 1⟩ : QoiDesc).Accepted := by decide
  have hfit : (1080 - 1) * 1920 + 1920 ≤ 2 ^ 32 := by decide
  have hencode : qoi_encode_kasm stripedScreen ⟨1920, 1080, 4, 1⟩ true 1920 =
      .ok (qoiHeader ⟨1920, 1080, 4, 1⟩ ++
        qoiChunks .start 0 ((raster 1920 1080 stripes).map (qoiColour true)) ++ qoi_padding) :=
    qoi_encode_eq haccepted true hfit hmemory
  have hequal : decide (pfRGBX.equal pfRGBX) = true := decide_eq_true (PixelFormatOf.equal_refl _)
  refine ⟨_, by rw [qoiCompressOnly, hequal, hencode], ?_⟩
  have hheader : (qoiHeader ⟨1920, 1080, 4, 1⟩).length = 14 := rfl
  have hpadding : qoi_padding.length = 8 := rfl
  rw [List.length_append, List.length_append, hheader, hpadding,
    qoiChunks_length_far stripes_far, List.length_map, length_raster]

/-- A client with QOI and without WebP, while a video is shown. -/
def videoScreen : EncodeContext :=
  { onePixelContext false false with
    cp := { supportsQOI := true }
    pbRect := ⟨(0, 0), (1920, 1080)⟩ }

/-- One changed pixel, the whole screen, and a payload whose length does not come back. -/
theorem video_payload_cut :
    let m : EncodeManager := ⟨true, fun _ => 0, 0⟩
    (m.mainRects videoScreen {(0, 0)}).flatMap (m.subRects videoScreen) = [videoScreen.pbRect] ∧
      ∃ out, qoiCompressOnly pfRGBX stripedScreen 1920 1080 1920 = .ok out ∧
        out.length = 8294422 ∧
        ¬ ReadsBack Empty (CompactWriter.qoi.write out.length) out.length := by
  refine ⟨by decide, ?_⟩
  obtain ⟨out, hout, hlength⟩ := striped_payload
  refine ⟨out, hout, hlength, fun hback => ?_⟩
  have hshort := (readsBack_iff _).mp hback
  rw [hlength] at hshort
  exact absurd hshort (by decide)

end KasmVNC.Rfb
