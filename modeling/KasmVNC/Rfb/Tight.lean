import KasmVNC.Lib.Checked
import KasmVNC.Lib.Zlib
import KasmVNC.Rfb.Palette
import KasmVNC.Rfb.PixelFormat
import KasmVNC.Rfb.Tiles
import Mathlib.Logic.Function.Basic

/-!
# Tight

A rectangle is sent as one colour, as bits for two colours, as indices into a palette,
or pixel by pixel. All but the first are compressed, each by a stream of its own, unless
they are shorter than 12 bytes.

The client takes a rectangle in two steps: `readRect` copies its bytes from the
connection, and `decodeRect` makes sense of the copy later on. So both of them work out
where the rectangle ends. The length of the compressed data has at most 22 bits.
-/

namespace KasmVNC.Rfb

open KasmVNC.Lib Reader

/-- There are four zlib streams. -/
instance neZero_zlibStreams : NeZero 4 := ⟨by decide⟩

variable {κ : Type} {k : ℕ} {width : PixelWidth}

def tightExplicitFilter : Byte := 0x04

def tightFill : Byte := 0x08

def tightJpeg : Byte := 0x09

def tightMaxSubencoding : Byte := 0x0d

def tightFilterCopy : Byte := 0x00

def tightFilterPalette : Byte := 0x01

def tightFilterGradient : Byte := 0x02

def TIGHT_MIN_TO_COMPRESS : ℕ := 12

def TIGHT_MAX_WIDTH : ℕ := 2048

/-! ## The encoder -/

/-- The compressed streams of the encoder, and what makes it reset them. -/
structure TightStreams (Z : Zlib) where
  zlibStreams : Fin 4 → Z.Deflate
  supportsUdp : Bool
  zlibNeedsReset : Bool

def TightStreams.resets {Z : Zlib} (s : TightStreams Z) : Bool := s.supportsUdp || s.zlibNeedsReset

/-- The first byte of a rectangle with a filter or none. -/
def tightControl (resets : Bool) (streamId : Fin 4) (filter : Byte) : Byte :=
  if resets then ((BitVec.ofNat 8 streamId ||| filter) <<< 4) ||| ((1 : Byte) <<< streamId.val)
  else (BitVec.ofNat 8 streamId ||| filter) <<< 4

def writeCompact (value : BitVec 32) : List Byte :=
  let b := (value &&& 0x7f).setWidth 8
  if value ≤ 0x7f then [b]
  else
    let c := ((value >>> 7) &&& 0x7f).setWidth 8
    if value ≤ 0x3fff then [b ||| 0x80, c]
    else [b ||| 0x80, c ||| 0x80, ((value >>> 14) &&& 0xff).setWidth 8]

/-- What is written to a stream of `getZlibOutStream`, in `memStream`. -/
def TightStreams.compress {Z : Zlib} (s : TightStreams Z) (streamId : Fin 4) (data : List Byte) :
    List Byte × Z.Deflate :=
  Z.compress (if s.resets then Z.resetDeflate (s.zlibStreams streamId) else s.zlibStreams streamId)
    data

/-- `getZlibOutStream`, the data, and `flushZlibOutStream`. -/
def tightWriteData {Z : Zlib} (s : TightStreams Z) (streamId : Fin 4) (length : ℕ)
    (data : List Byte) : List Byte × TightStreams Z :=
  if length < 12 then (data, s)
  else
    let (memStream, zs) := s.compress streamId data
    (writeCompact (BitVec.ofNat 32 memStream.length) ++ memStream,
      { s with zlibStreams := Function.update s.zlibStreams streamId zs })

section Encoder

variable (pf : PixelFormatOf width) (palette : Palette (RawPixel width.bytes))
  (pb : PreparedBuffer (RawPixel width.bytes))

/-- `writePixels` for one pixel. -/
def tightWritePixel (v : RawPixel width.bytes) : List Byte :=
  if width ≠ .bpp32 ∨ ¬pf.is888 then v.val else pf.rgbFromBuffer v

/-- `writePixels` -/
def tightWritePixels (vs : List (RawPixel width.bytes)) : List Byte :=
  vs.flatMap (tightWritePixel pf)

/-- `writeSolidRect` -/
def tightWriteSolid (colour : RawPixel width.bytes) : List Byte :=
  (tightFill <<< 4) :: tightWritePixel pf colour

variable {Z : Zlib} (s : TightStreams Z)

/-- `writeFullColourRect` -/
def tightWriteFullColour : List Byte × TightStreams Z :=
  let area := pb.width * pb.height
  let length := if width ≠ .bpp32 ∨ ¬pf.is888 then area * width.bytes else area * 3
  let (bytes, s') := tightWriteData s 0 length (tightWritePixels pf pb.pixels)
  (tightControl s.resets 0 0 :: bytes, s')

/-- The loop that sets a bit for each pixel that is not in the background. -/
def setMask (bg : RawPixel k) : Byte → Byte → List (RawPixel k) → Byte
  | value, _, [] => value
  | value, mask, c :: cs =>
    setMask bg (if c ≠ bg then value ||| mask else value) (mask >>> 1) cs

/-- One byte of eight pixels: those before the first one that is not in the background
are skipped. -/
def monoByte (bg : RawPixel k) (cs : List (RawPixel k)) : Byte :=
  let bg_bits := (cs.takeWhile (· = bg)).length
  if bg_bits = 8 then 0
  else
    let mask := (0x80 : Byte) >>> bg_bits
    setMask bg mask (mask >>> 1) (cs.drop (bg_bits + 1))

/-- One row of `writeMonoRect`. -/
def monoRow (bg : RawPixel k) (row : ℕ → RawPixel k) (w : ℕ) : List Byte :=
  let full := (List.range (w / 8)).map fun i =>
    monoByte bg ((List.range 8).map fun b => row (8 * i + b))
  if w % 8 ≠ 0 then
    full ++ [setMask bg 0 0x80 ((List.range (w % 8)).map fun b => row (8 * (w / 8) + b))]
  else full

/-- The data of `writeMonoRect`. -/
def tightMonoData : List Byte :=
  (List.range pb.height).flatMap fun y =>
    monoRow (palette.getColour 0) (fun x => pb.getImage pb.getRect x y) pb.width

/-- `writeMonoRect` -/
def tightWriteMono : Except Fault (List Byte × TightStreams Z) :=
  (require (palette.size = 2)).map fun _ =>
    let pal := [palette.getColour 0, palette.getColour 1]
    let length := (pb.width + 7) / 8 * pb.height
    let (bytes, s') := tightWriteData s 1 length (tightMonoData palette pb)
    (tightControl s.resets 1 tightExplicitFilter :: tightFilterPalette :: 1 ::
      (tightWritePixels pf pal ++ bytes), s')

/-- The loop of `writeIndexedRect`: a colour is looked up if it is not the one before. -/
def tightIndices : RawPixel width.bytes → Byte → List (RawPixel width.bytes) → List Byte
  | _, _, [] => []
  | prevColour, idx, c :: cs =>
    if c ≠ prevColour then
      BitVec.ofNat 8 (palette.lookup c) :: tightIndices c (BitVec.ofNat 8 (palette.lookup c)) cs
    else idx :: tightIndices prevColour idx cs

/-- The data of `writeIndexedRect`. -/
def tightIndexedData : List Byte :=
  let first := pb.getImage pb.getRect 0 0
  tightIndices palette first (BitVec.ofNat 8 (palette.lookup first)) pb.pixels

/-- `writeIndexedRect` for more than 8 bits, with the assertions, of which one is that no
other colour is looked up. -/
def tightWriteIndexed : Except Fault (List Byte × TightStreams Z) :=
  (require (palette.size > 0 ∧ palette.size ≤ 256 ∧ ∀ c ∈ pb.pixels, c ∈ palette.colours)).map
    fun _ =>
      let (bytes, s') := tightWriteData s 2 (pb.width * pb.height) (tightIndexedData palette pb)
      (tightControl s.resets 2 tightExplicitFilter :: tightFilterPalette ::
        BitVec.ofNat 8 (palette.size - 1) :: (tightWritePixels pf palette.colours ++ bytes), s')

/-- `TightEncoder::writeRect` -/
def tightWriteRect : Except Fault (List Byte × TightStreams Z) :=
  match palette.size with
  | 0 => .ok (tightWriteFullColour pf pb s)
  | 1 => .ok (tightWriteSolid pf (palette.getColour 0), s)
  | 2 => tightWriteMono pf palette pb s
  | _ =>
    if width = .bpp8 then .ok (tightWriteFullColour pf pb s)
    else tightWriteIndexed pf palette pb s

end Encoder

/-! ## The decoder -/

def readCompact : Reader κ (BitVec 32) := do
  let b ← readU8
  let result := (b &&& 0x7f).setWidth 32
  if b &&& 0x80 ≠ 0 then do
    let b ← readU8
    let result := result ||| ((b &&& 0x7f).setWidth 32 <<< 7)
    if b &&& 0x80 ≠ 0 then do
      let b ← readU8
      pure (result ||| (b.setWidth 32 <<< 14))
    else pure result
  else pure result

section Decoder

variable (pf : PixelFormatOf width)

/-- The bytes of a pixel. -/
def tightPixelSize : ℕ := if pf.is888 then 3 else width.bytes

def tightReadPixel : Reader κ (RawPixel width.bytes) :=
  if pf.is888 then pf.bufferFromRGB <$> readBytes 3 else readPixel width.bytes

/-- `dataSize`, with a palette or without one. -/
def tightDataSize (palSize w h : ℕ) : ℕ :=
  h * if palSize ≠ 0 then if palSize ≤ 2 then (w + 7) / 8 else w else w * tightPixelSize pf

/-- The filter in `readRect`, if there is one: its bytes, and the size of the palette. -/
def tightCopyFilter (comp_ctl : Byte) : Reader κ (List Byte × ℕ) :=
  if comp_ctl &&& tightExplicitFilter ≠ 0 then do
    let filterId ← readU8
    if filterId = tightFilterPalette then do
      let size ← readU8
      let palette ← readBytes ((size.toNat + 1) * tightPixelSize pf)
      pure (filterId :: size :: palette, size.toNat + 1)
    else if filterId = tightFilterGradient then
      if width = .bpp8 then fail "TightDecoder: invalid BPP for gradient filter"
      else pure ([filterId], 0)
    else if filterId = tightFilterCopy then pure ([filterId], 0)
    else fail "TightDecoder: unknown filter code received"
  else pure ([], 0)

/-- Bytes behind their length, which is in native byte order in the copy. -/
def tightCopyCompact : Reader κ (List Byte) := do
  let len ← readCompact
  let bytes ← readBytes len.toNat
  pure (be32 len ++ bytes)

def tightCopyData (dataSize : ℕ) : Reader κ (List Byte) :=
  if dataSize < TIGHT_MIN_TO_COMPRESS then readBytes dataSize else tightCopyCompact

/-- `TightDecoder::readRect`: the bytes it copies. -/
def tightReadRect (w h : ℕ) : Reader κ (List Byte) := do
  let byte ← readU8
  let comp_ctl := byte >>> 4
  if comp_ctl = tightFill then do
    let pixel ← readBytes (tightPixelSize pf)
    pure (byte :: pixel)
  else if comp_ctl = tightJpeg then do
    let image ← tightCopyCompact
    pure (byte :: image)
  else if comp_ctl > tightMaxSubencoding then
    fail "TightDecoder: bad subencoding value received"
  else if w > TIGHT_MAX_WIDTH then fail s!"TightDecoder: too large rectangle ({w} pixels)"
  else do
    let filter ← tightCopyFilter pf comp_ctl
    let data ← tightCopyData (tightDataSize pf filter.2 w h)
    pure (byte :: (filter.1 ++ data))

/-- The pixels for some bits of a byte, the highest one first. -/
def monoPixels (palette : List (RawPixel k)) (n : ℕ) (bits : Byte) : List (RawPixel k) :=
  (List.range n).map fun i => palette.getD ((bits >>> (7 - i)) &&& 1).toNat default

/-- One row of two colours. -/
def filterMonoRow (palette : List (RawPixel k)) (w : ℕ) : Reader κ (List (RawPixel k)) := do
  let full ← readMany readU8 (w / 8)
  if w % 8 ≠ 0 then do
    let bits ← readU8
    pure (full.flatMap (monoPixels palette 8) ++ monoPixels palette (w % 8) bits)
  else pure (full.flatMap (monoPixels palette 8))

/-- `FilterPalette` -/
def filterPalette (palette : List (RawPixel k)) (w h : ℕ) : Reader κ (List (RawPixel k)) :=
  if palette.length ≤ 2 then List.flatten <$> readMany (filterMonoRow palette w) h
  else readMany ((fun index : Byte => palette.getD index.toNat default) <$> readU8) (h * w)

/-- How an image is made from its bytes in the ways that are of no use here: the JPEG
library, and the gradient filter, which no encoder applies. -/
structure OtherFilters (k : ℕ) where
  jpeg : List Byte → Block (RawPixel k)
  gradient : List Byte → Block (RawPixel k)

/-- The filter in `decodeRect`: the palette, and whether it is the gradient filter. -/
def tightReadFilter (comp_ctl : Byte) : Reader κ (List (RawPixel width.bytes) × Bool) :=
  if comp_ctl &&& tightExplicitFilter ≠ 0 then do
    let filterId ← readU8
    if filterId = tightFilterPalette then do
      let size ← readU8
      let palette ← readMany (tightReadPixel pf) (size.toNat + 1)
      pure (palette, false)
    else if filterId = tightFilterGradient then pure ([], true)
    else if filterId = tightFilterCopy then pure ([], false)
    else fail "assertion"
  else pure ([], false)

/-- The data to decode, decompressed if need be. -/
def tightReadData (Z : Zlib) (zis : Z.Inflate) (dataSize : ℕ) : Reader κ (List Byte × Z.Inflate) :=
  if dataSize < TIGHT_MIN_TO_COMPRESS then do
    let data ← readBytes dataSize
    pure (data, zis)
  else do
    let len ← readU32
    let ms ← readBytes len.toNat
    match Z.decompress zis ms with
    | .error msg => fail msg
    | .ok (netbuf, zis) =>
      if dataSize ≤ netbuf.length then pure (netbuf.take dataSize, zis)
      else fail "end of stream"

/-- The pixels made from the data. -/
def tightDecodePixels (filters : OtherFilters width.bytes) (palette : List (RawPixel width.bytes))
    (useGradient : Bool) (w h : ℕ) (data : List Byte) :
    Except String (Block (RawPixel width.bytes)) :=
  if palette.length = 0 ∧ useGradient = true then .ok (filters.gradient data)
  else
    let pixels : Reader Empty (List (RawPixel width.bytes)) :=
      if palette.length = 0 then readMany (tightReadPixel pf) (h * w) else filterPalette palette w h
    (pixels ⟨data, []⟩).map fun res => bufferBlock w res.1

/-- `TightDecoder::decodeRect` -/
def tightDecodeRect (filters : OtherFilters width.bytes) (Z : Zlib) (zis : Fin 4 → Z.Inflate)
    (r : Rect) (frame : Point → RawPixel width.bytes) :
    Reader κ ((Point → RawPixel width.bytes) × (Fin 4 → Z.Inflate)) := do
  let byte ← readU8
  let zis := fun i : Fin 4 => if byte.getLsbD i then Z.resetInflate (zis i) else zis i
  let comp_ctl := byte >>> 4
  if comp_ctl = tightFill then do
    let pix ← tightReadPixel pf
    pure (imageRect r (fun _ _ => pix) frame, zis)
  else if comp_ctl = tightJpeg then do
    let len ← readU32
    let image ← readBytes len.toNat
    pure (imageRect r (filters.jpeg image) frame, zis)
  else if comp_ctl > tightMaxSubencoding then fail "assertion"
  else do
    let filter ← tightReadFilter pf comp_ctl
    let streamId : Fin 4 := Fin.ofNat 4 (comp_ctl &&& 0x03).toNat
    let data ← tightReadData Z (zis streamId) (tightDataSize pf filter.1.length r.cols r.rows)
    match tightDecodePixels pf filters filter.1 filter.2 r.cols r.rows data.1 with
    | .error msg => fail msg
    | .ok image => pure (imageRect r image frame, Function.update zis streamId data.2)

end Decoder

end KasmVNC.Rfb
