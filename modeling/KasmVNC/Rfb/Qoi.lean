import KasmVNC.Rfb.PixelFormat

/-!
# QOI images

`qoi_encode_kasm` of `TightQOIEncoder` writes an image of 32-bit pixels, and `qoi_decode`
reads it. The encoder uses no alpha and no table of colours: a pixel is part of a run of
equal ones, a small difference to the one before it, or three bytes.
-/

namespace KasmVNC.Rfb

open KasmVNC.Lib

/-- `qoi_rgba_t`; its member `v` is all four bytes. -/
structure QoiRgba where
  r : Byte
  g : Byte
  b : Byte
  a : Byte
deriving DecidableEq, Repr

namespace QoiRgba

/-- The first previous pixel. -/
def start : QoiRgba := ⟨0, 0, 0, 255⟩

/-- Four bytes of memory. -/
def ofRaw (v : RawPixel 4) : QoiRgba :=
  ⟨v.val.getD 0 0, v.val.getD 1 0, v.val.getD 2 0, v.val.getD 3 0⟩

def swap (px : QoiRgba) : QoiRgba := { px with r := px.b, b := px.r }

def rgb (px : QoiRgba) : List Byte := [px.r, px.g, px.b]

/-- `QOI_COLOR_HASH(px) % 64` -/
def hash (px : QoiRgba) : ℕ :=
  (px.r.toNat * 3 + px.g.toNat * 5 + px.b.toNat * 7 + px.a.toNat * 11) % 64

end QoiRgba

structure QoiDesc where
  width : BitVec 32
  height : BitVec 32
  channels : Byte
  colorspace : Byte

abbrev QOI_MAGIC : BitVec 32 := 0x716f6966

abbrev QOI_HEADER_SIZE : ℕ := 14

abbrev QOI_PIXELS_MAX : ℕ := 400000000

def qoi_padding : List Byte := [0, 0, 0, 0, 0, 0, 0, 1]

/-- Both functions accept no other descriptions. -/
def QoiDesc.Accepted (desc : QoiDesc) : Prop :=
  desc.width ≠ 0 ∧ desc.height ≠ 0 ∧ (desc.channels = 3 ∨ desc.channels = 4) ∧
    (desc.colorspace = 0 ∨ desc.colorspace = 1) ∧
    desc.height.toNat < QOI_PIXELS_MAX / desc.width.toNat

instance (desc : QoiDesc) : Decidable desc.Accepted := inferInstanceAs (Decidable (_ ∧ _))

/-! ## Encoding -/

/-- `QOI_OP_RUN` -/
def qoiRun (run : ℕ) : Byte := 0xc0 ||| .ofNat 8 (run - 1)

/-- The operation for a pixel that differs from the one before. The differences wrap
around. -/
def qoiDifference (px px_prev : QoiRgba) : List Byte :=
  let vr := px.r - px_prev.r
  let vg := px.g - px_prev.g
  let vb := px.b - px_prev.b
  let vg_r := vr - vg
  let vg_b := vb - vg
  if (vr.toInt > -3 ∧ vr.toInt < 2) ∧ (vg.toInt > -3 ∧ vg.toInt < 2) ∧
      (vb.toInt > -3 ∧ vb.toInt < 2) then
    [(0x40 : Byte) ||| (vr + 2) <<< 4 ||| (vg + 2) <<< 2 ||| (vb + 2)]
  else if (vg_r.toInt > -9 ∧ vg_r.toInt < 8) ∧ (vg.toInt > -33 ∧ vg.toInt < 32) ∧
      (vg_b.toInt > -9 ∧ vg_b.toInt < 8) then
    [0x80 ||| (vg + 32), (vg_r + 8) <<< 4 ||| (vg_b + 8)]
  else [0xfe, px.r, px.g, px.b]

/-- The variables of the loop in `qoi_encode_kasm`. -/
structure QoiEncoder where
  px_prev : QoiRgba
  run : ℕ
  px_pos : ℕ
  bytes : List Byte

/-- The body of the loop, for the next pixel. -/
def QoiEncoder.pixel (px_end : ℕ) (e : QoiEncoder) (px : QoiRgba) : QoiEncoder :=
  if px = e.px_prev then
    let run := e.run + 1
    if run = 62 ∨ e.px_pos = px_end then
      ⟨px, 0, e.px_pos + 1, e.bytes ++ [qoiRun run]⟩
    else ⟨px, run, e.px_pos + 1, e.bytes⟩
  else
    let bytes := if e.run > 0 then e.bytes ++ [qoiRun e.run] else e.bytes
    ⟨px, 0, e.px_pos + 1, bytes ++ qoiDifference px e.px_prev⟩

/-- What ends the encoder: the description is refused and it returns `NULL`, or it reads
outside the buffer. -/
inductive QoiError
  | null
  | outside
deriving DecidableEq

/-- The length of the memory for the output. -/
def qoiMaxSize (desc : QoiDesc) : ℕ :=
  desc.width.toNat * desc.height.toNat * (3 + 1) + QOI_HEADER_SIZE + qoi_padding.length

def qoiHeader (desc : QoiDesc) : List Byte :=
  be32 QOI_MAGIC ++ be32 desc.width ++ be32 desc.height ++ [3, desc.colorspace]

/-- `const unsigned stridedpos` -/
def stridedpos (stride : BitVec 32) (y x : ℕ) : ℕ :=
  (BitVec.ofNat 32 y * stride + BitVec.ofNat 32 x).toNat

/-- `pixels[stridedpos]`, with red first -/
def qoiRead (pixels : ℕ → Option (RawPixel 4)) (isrgb : Bool) (pos : ℕ) :
    Except QoiError QoiRgba :=
  match pixels pos with
  | none => .error .outside
  | some v => .ok (if isrgb then .ofRaw v else (QoiRgba.ofRaw v).swap)

/-- `qoi_encode_kasm`; `pixels` is the memory at `data`. -/
def qoi_encode_kasm (pixels : ℕ → Option (RawPixel 4)) (desc : QoiDesc) (isrgb : Bool)
    (stride : BitVec 32) : Except QoiError (List Byte) :=
  if desc.Accepted then do
    let px_end := desc.width.toNat * desc.height.toNat - 1
    let e ← (List.range desc.height.toNat).foldlM (fun e y =>
      (List.range desc.width.toNat).foldlM (fun e x => do
        let px ← qoiRead pixels isrgb (stridedpos stride y x)
        pure (QoiEncoder.pixel px_end e px)) e) ⟨.start, 0, 0, qoiHeader desc⟩
    pure (e.bytes ++ qoi_padding)
  else throw .null

theorem rgbx_sane : ({
    bpp := 32, depth := 24, bigEndian := false, trueColour := true
    redMax := 255, greenMax := 255, blueMax := 255
    redShift := 0, greenShift := 8, blueShift := 16 } : PixelFormatFields).isSane = true := by
  decide

theorem bgrx_sane : ({
    bpp := 32, depth := 24, bigEndian := false, trueColour := true
    redMax := 255, greenMax := 255, blueMax := 255
    redShift := 16, greenShift := 8, blueShift := 0 } : PixelFormatFields).isSane = true := by
  decide

def pfRGBX : PixelFormatOf .bpp32 := ⟨⟨_, rgbx_sane⟩, rfl⟩

def pfBGRX : PixelFormatOf .bpp32 := ⟨⟨_, bgrx_sane⟩, rfl⟩

/-- `TightQOIEncoder::compressOnly`; `pixels` is the memory of the pixel buffer. -/
def qoiCompressOnly (pf : PixelFormatOf .bpp32) (pixels : ℕ → Option (RawPixel 4))
    (width height stride : BitVec 32) : Except QoiError (List Byte) :=
  qoi_encode_kasm pixels ⟨width, height, 4, 1⟩ (pfRGBX.equal pf) stride

/-! ## Decoding -/

/-- The variables of the loop in `qoi_decode`; `rest` are the bytes from `p` on. -/
structure QoiDecoder where
  px : QoiRgba
  index : ℕ → QoiRgba
  run : ℕ
  rest : List Byte

namespace QoiDecoder

/-- One operation. The tags of eight bits come before those of two. -/
def operation (d : QoiDecoder) : QoiDecoder :=
  match d.rest with
  | [] => d
  | b1 :: rest =>
    if b1 = 0xfe then
      match rest with
      | r :: g :: b :: rest => { d with px := { d.px with r, g, b }, rest }
      | _ => d
    else if b1 = 0xff then
      match rest with
      | r :: g :: b :: a :: rest => { d with px := ⟨r, g, b, a⟩, rest }
      | _ => d
    else if b1 &&& 0xc0 = 0x00 then { d with px := d.index b1.toNat, rest }
    else if b1 &&& 0xc0 = 0x40 then
      { d with
        px := ⟨d.px.r + ((b1 >>> 4 &&& 0x03) - 2), d.px.g + ((b1 >>> 2 &&& 0x03) - 2),
          d.px.b + ((b1 &&& 0x03) - 2), d.px.a⟩
        rest }
    else if b1 &&& 0xc0 = 0x80 then
      match rest with
      | b2 :: rest =>
        let vg := (b1 &&& 0x3f) - 32
        let vg_r : Byte := b2 >>> 4 &&& 0x0f
        let vg_b : Byte := b2 &&& 0x0f
        { d with
          px := ⟨d.px.r + (vg - 8 + vg_r), d.px.g + vg, d.px.b + (vg - 8 + vg_b), d.px.a⟩
          rest }
      | _ => d
    else { d with run := (b1 &&& 0x3f).toNat, rest }

/-- The body of the loop. -/
def pixel (d : QoiDecoder) : QoiDecoder :=
  if d.run > 0 then { d with run := d.run - 1 }
  else if qoi_padding.length < d.rest.length then
    let d := d.operation
    { d with index := Function.update d.index d.px.hash d.px }
  else d

/-- The loop, for `n` more pixels. -/
def pixels : ℕ → QoiDecoder → List QoiRgba × QoiDecoder
  | 0, d => ([], d)
  | n + 1, d =>
    let d := d.pixel
    let more := pixels n d
    (d.px :: more.1, more.2)

end QoiDecoder

/-- A decoded image, and the bytes that were not used. -/
structure QoiImage where
  desc : QoiDesc
  pixels : List QoiRgba
  rest : List Byte

/-- `qoi_decode` -/
def qoi_decode (bytes : List Byte) : Option QoiImage :=
  match bytes with
  | m0 :: m1 :: m2 :: m3 :: w0 :: w1 :: w2 :: w3 :: h0 :: h1 :: h2 :: h3 :: channels ::
      colorspace :: rest =>
      let desc : QoiDesc := ⟨w0 ++ w1 ++ w2 ++ w3, h0 ++ h1 ++ h2 ++ h3, channels, colorspace⟩
      if bytes.length < QOI_HEADER_SIZE + qoi_padding.length ∨ m0 ++ m1 ++ m2 ++ m3 ≠ QOI_MAGIC ∨
          ¬desc.Accepted then none
      else
        let decoded := QoiDecoder.pixels (desc.width.toNat * desc.height.toNat)
          ⟨.start, fun _ => ⟨0, 0, 0, 0⟩, 0, rest⟩
        some ⟨desc, decoded.1, decoded.2.rest⟩
  | _ => none

end KasmVNC.Rfb
