import KasmVNC.Rfb.Encoders
import KasmVNC.Rfb.HextileEncodeBetter
import KasmVNC.Rfb.Rre
import KasmVNC.Rfb.Tight
import KasmVNC.Rfb.ZrleRoundTrip

/-!
# The streams of a rectangle

A client that supports UDP is sent rectangles over a stream of their own, and
`startRect` writes the header of a rectangle to the stream that is right for the client.
An encoder asks the connection for a stream each time it has something to write, and has
to say by itself that the client supports UDP. What is written is a list of pieces, each
with the stream it is written to.

The main result is `rect_one_stream`: header and payload go the same way, unless the
client supports UDP and the encoder does not say so.
-/

namespace KasmVNC.Rfb

open KasmVNC.Lib EncoderClass

variable {k : ℕ} {width : PixelWidth} {Z : Zlib}

/-! ## Streams -/

/-- The streams of a connection, under their names in `SConnection`. -/
inductive OutStream
  | os
  | udps
deriving DecidableEq, Repr

/-- `SConnection::getOutStream`; to leave the flag out is to say `false`. -/
def getOutStream (udp : Bool) : OutStream := if udp then .udps else .os

/-- Pieces in the order they are written. -/
abbrev Writes := List (OutStream × List Byte)

namespace Writes

/-- What one stream is given. -/
def on (o : OutStream) (ws : Writes) : List Byte := (ws.filter (·.1 = o)).flatMap (·.2)

/-- All of it, whatever the stream. -/
def bytes (ws : Writes) : List Byte := ws.flatMap (·.2)

/-- Nothing goes to another stream. -/
def StayOn (o : OutStream) (ws : Writes) : Prop := ∀ o' ≠ o, ws.on o' = []

end Writes

/-- `SMsgWriter::startRect` -/
def startRectWrites (cp : ConnParams) (r : Rect) (encoding : ℤ) : Writes :=
  let o : OutStream := if cp.supportsUdp then .udps else .os
  [(o, be16 (BitVec.ofInt 16 r.tl.1)), (o, be16 (BitVec.ofInt 16 r.tl.2)),
    (o, be16 (BitVec.ofInt 16 r.width)), (o, be16 (BitVec.ofInt 16 r.height)),
    (o, be32 (BitVec.ofInt 32 encoding))]

/-- The payload goes to every stream the header has been written to, and to no other. -/
def OneStream (header payload : Writes) : Prop := ∀ w ∈ header, payload.StayOn w.1

/-! ## The plain encoders -/

section Plain

variable (palette : Palette (RawPixel k)) (pb : PreparedBuffer (RawPixel k))

/-- `RawEncoder::writeRect`, a row at a time. -/
def rawWriteRect : Writes :=
  (List.range pb.height).map fun y =>
    (getOutStream false,
      (List.range pb.width).flatMap fun x => (pb.getImage pb.getRect x y).val)

/-- `RawEncoder::writeSolidRect` -/
def rawWriteSolidRect (w h : ℕ) (colour : RawPixel k) : Writes :=
  List.replicate (w * h) (getOutStream false, colour.val)

/-- `RREEncoder::writeSolidRect` -/
def rreWriteSolidRect (colour : RawPixel k) : Writes :=
  [(getOutStream false, be32 0), (getOutStream false, colour.val)]

/-- `RREEncoder::writeRect` -/
def rreWriteRect : Except Fault Writes :=
  if palette.size = 1 then .ok (rreWriteSolidRect (palette.getColour 0))
  else
    (rreEncodeRect palette pb).map fun res =>
      [(getOutStream false, be32 res.1), (getOutStream false, res.2)]

/-- `HextileEncoder::writeRect` -/
def hextileWriteRect (improvedHextile : Bool) (pb : PreparedBuffer (RawPixel width.bytes)) :
    Except Fault Writes :=
  (if improvedHextile then hextileEncodeBetter width pb else hextileEncode width pb).map
    fun bytes => [(getOutStream false, bytes)]

/-- `HextileEncoder::writeSolidRect`. The loop does not end if there is no tile. -/
def hextileWriteSolidRect (w h : ℕ) (colour : RawPixel k) : Except Fault Writes :=
  let tiles := (w + 15) / 16 * ((h + 15) / 16)
  (require (tiles > 0)).map fun _ =>
    (getOutStream false, [hextileBgSpecified]) :: (getOutStream false, colour.val) ::
      List.replicate (tiles - 1) (getOutStream false, [0])

end Plain

/-! ## The encoders with compressed streams -/

/-- What the encoders of a connection go by. -/
structure RectConn (Z : Zlib) where
  cp : ConnParams
  /-- `TightEncoder::zlibStreams` -/
  zlibStreams : Fin 4 → Z.Deflate
  zlibNeedsReset : Bool
  /-- `ZRLEEncoder::zos` -/
  zos : Z.Deflate

namespace RectConn

variable (c : RectConn Z)

def tight : TightStreams Z := ⟨c.zlibStreams, c.cp.supportsUdp, c.zlibNeedsReset⟩

/-- The stream `TightEncoder` asks for. -/
def tightOut : OutStream := getOutStream c.cp.supportsUdp

/-- The end of both functions of `ZRLEEncoder`. -/
def zrleFlush (data : List Byte) : Writes × RectConn Z :=
  let (mos, zos) := Z.compress c.zos data
  ([(getOutStream false, be32 (BitVec.ofNat 32 mos.length)), (getOutStream false, mos)],
    { c with zos })

section Rect

variable (pf : PixelFormatOf width) (palette : Palette (RawPixel width.bytes))
  (pb : PreparedBuffer (RawPixel width.bytes))

/-- `ZRLEEncoder::writeSolidRect` -/
def zrleWriteSolidRect (w h : ℕ) (colour : RawPixel width.bytes) : Writes × RectConn Z :=
  c.zrleFlush (zrleWriteSolid (zrleWritePixel pf) w h colour)

/-- `ZRLEEncoder::writeRect` -/
def zrleWriteRect : Except Fault (Writes × RectConn Z) :=
  if palette.size = 1 then .ok (c.zrleWriteSolidRect pf pb.width pb.height (palette.getColour 0))
  else
    (zrleWriteTiles (fun t =>
      zrleWriteTile (zrleWritePixel pf) palette t.cols t.rows (pb.getImage t))
      (pb.getRect.tiles 64)).map c.zrleFlush

/-- `TightEncoder::writeSolidRect` -/
def tightWriteSolidRect (colour : RawPixel width.bytes) : Writes :=
  [(c.tightOut, [tightFill <<< 4]), (c.tightOut, tightWritePixel pf colour)]

/-- `getZlibOutStream`, the data, and `flushZlibOutStream`. Short data are written to
the stream of the connection. -/
def tightWriteZlib (streamId : Fin 4) (length : ℕ) (data : List Byte) : Writes × RectConn Z :=
  if length < 12 then ([(c.tightOut, data)], c)
  else
    let (memStream, zs) := c.tight.compress streamId data
    ([(c.tightOut, writeCompact (BitVec.ofNat 32 memStream.length)), (c.tightOut, memStream)],
      { c with zlibStreams := Function.update c.zlibStreams streamId zs })

/-- `writeFullColourRect` -/
def tightWriteFullColourRect : Writes × RectConn Z :=
  let area := pb.width * pb.height
  let length := if width ≠ .bpp32 ∨ ¬pf.is888 then area * width.bytes else area * 3
  let (ws, c') := c.tightWriteZlib 0 length (tightWritePixels pf pb.pixels)
  ((c.tightOut, [tightControl c.tight.resets 0 0]) :: ws, c')

/-- `writeMonoRect` -/
def tightWriteMonoRect : Except Fault (Writes × RectConn Z) :=
  (require (palette.size = 2)).map fun _ =>
    let pal := [palette.getColour 0, palette.getColour 1]
    let (ws, c') := c.tightWriteZlib 1 ((pb.width + 7) / 8 * pb.height) (tightMonoData palette pb)
    ((c.tightOut, [tightControl c.tight.resets 1 tightExplicitFilter]) ::
      (c.tightOut, [tightFilterPalette]) :: (c.tightOut, [1]) ::
      (c.tightOut, tightWritePixels pf pal) :: ws, c')

/-- `writeIndexedRect` for more than 8 bits. -/
def tightWriteIndexedRect : Except Fault (Writes × RectConn Z) :=
  (require (palette.size > 0 ∧ palette.size ≤ 256 ∧ ∀ p ∈ pb.pixels, p ∈ palette.colours)).map
    fun _ =>
      let (ws, c') := c.tightWriteZlib 2 (pb.width * pb.height) (tightIndexedData palette pb)
      ((c.tightOut, [tightControl c.tight.resets 2 tightExplicitFilter]) ::
        (c.tightOut, [tightFilterPalette]) ::
        (c.tightOut, [BitVec.ofNat 8 (palette.size - 1)]) ::
        (c.tightOut, tightWritePixels pf palette.colours) :: ws, c')

/-- `TightEncoder::writeRect` -/
def tightWriteRect : Except Fault (Writes × RectConn Z) :=
  match palette.size with
  | 0 => .ok (c.tightWriteFullColourRect pf pb)
  | 1 => .ok (c.tightWriteSolidRect pf (palette.getColour 0), c)
  | 2 => c.tightWriteMonoRect pf palette pb
  | _ =>
    if width = .bpp8 then .ok (c.tightWriteFullColourRect pf pb)
    else c.tightWriteIndexedRect pf palette pb

end Rect

end RectConn

/-! ## The image and video encoders -/

def tightWebp : Byte := 0x0b

def tightQoi : Byte := 0x0c

/-- The end of `writeRect`, and all of `writeOnly`, for an image that is compressed. -/
def imageWrites (o : OutStream) (subencoding : Byte) (out : List Byte) : Writes :=
  [(o, [subencoding <<< 4]), (o, writeCompact (BitVec.ofNat 32 out.length)), (o, out)]

/-- `TightJPEGEncoder` -/
def jpegWrites (cp : ConnParams) (out : List Byte) : Writes :=
  imageWrites (getOutStream cp.supportsUdp) tightJpeg out

/-- `TightWEBPEncoder` -/
def webpWrites (cp : ConnParams) (out : List Byte) : Writes :=
  imageWrites (getOutStream cp.supportsUdp) tightWebp out

/-- `TightQOIEncoder` -/
def qoiWrites (out : List Byte) : Writes := imageWrites (getOutStream false) tightQoi out

/-- What a video encoder has rendered for its screen. -/
structure VideoPacket where
  /-- `layout.id` -/
  screen : Byte
  msg_codec_id : Byte
  /-- `pkt->flags & AV_PKT_FLAG_KEY` -/
  key : Byte
  data : List Byte

/-- `SoftwareEncoder::writeRect`, which is `FFMPEGVAAPIEncoder::writeRect` as well. -/
def videoWriteRect (cp : ConnParams) (pkt : VideoPacket) : Writes :=
  let o := getOutStream cp.supportsUdp
  [(o, [pkt.screen]), (o, [pkt.msg_codec_id]), (o, [pkt.key]),
    (o, writeCompact (BitVec.ofNat 32 pkt.data.length)), (o, pkt.data)]

/-- What an encoder makes of pixels on its own: the compressors with their levels, the
packet of a video encoder, and the kind of hextile. -/
structure EncoderSettings (k : ℕ) where
  improvedHextile : Bool
  jpeg : PreparedBuffer (RawPixel k) → List Byte
  webp : PreparedBuffer (RawPixel k) → List Byte
  qoi : PreparedBuffer (RawPixel k) → List Byte
  packet : VideoPacket

/-! ## Between `startRect` and `endRect` -/

namespace EncoderClass

variable (set : EncoderSettings width.bytes) (pf : PixelFormatOf width) (c : RectConn Z)

/-- `Encoder::writeRect` -/
def writeRectTo (klass : EncoderClass) (palette : Palette (RawPixel width.bytes))
    (pb : PreparedBuffer (RawPixel width.bytes)) : Except Fault (Writes × RectConn Z) :=
  match klass with
  | encoderRaw => .ok (rawWriteRect pb, c)
  | encoderRRE => (rreWriteRect palette pb).map fun ws => (ws, c)
  | encoderHextile => (hextileWriteRect set.improvedHextile pb).map fun ws => (ws, c)
  | encoderTight => c.tightWriteRect pf palette pb
  | encoderTightJPEG => .ok (jpegWrites c.cp (set.jpeg pb), c)
  | encoderTightWEBP => .ok (webpWrites c.cp (set.webp pb), c)
  | encoderTightQOI => .ok (qoiWrites (set.qoi pb), c)
  | encoderZRLE => c.zrleWriteRect pf palette pb
  | encoderKasmVideo => .ok (videoWriteRect c.cp set.packet, c)

/-- `writeOnly` of the encoder object, which the other classes do not have. -/
def writeOnlyTo (cp : ConnParams) (out : List Byte) : EncoderClass → Except Fault Writes
  | encoderTightJPEG => .ok (jpegWrites cp out)
  | encoderTightWEBP => .ok (webpWrites cp out)
  | encoderTightQOI => .ok (qoiWrites out)
  | _ => .error .assertion

/-- The `writeSolidRect` of the base class: fill a buffer and write that. -/
def fillAndWrite (klass : EncoderClass) (w h : ℕ) (colour : RawPixel width.bytes) :
    Except Fault (Writes × RectConn Z) :=
  klass.writeRectTo set pf c ((({} : Palette _).insert colour 1).getD {}) ⟨w, h, fun _ => colour⟩

/-- `Encoder::writeSolidRect` -/
def writeSolidRectTo (klass : EncoderClass) (w h : ℕ) (colour : RawPixel width.bytes) :
    Except Fault (Writes × RectConn Z) :=
  match klass with
  | encoderRaw => .ok (rawWriteSolidRect w h colour, c)
  | encoderRRE => .ok (rreWriteSolidRect colour, c)
  | encoderHextile => (hextileWriteSolidRect w h colour).map fun ws => (ws, c)
  | encoderTight => .ok (c.tightWriteSolidRect pf colour, c)
  | encoderZRLE => .ok (c.zrleWriteSolidRect pf w h colour)
  | encoderKasmVideo => .ok ([], c)
  | encoderTightJPEG => encoderTightJPEG.fillAndWrite set pf c w h colour
  | encoderTightWEBP => encoderTightWEBP.fillAndWrite set pf c w h colour
  | encoderTightQOI => encoderTightQOI.fillAndWrite set pf c w h colour

end EncoderClass

/-- What `EncodeManager` does between `startRect` and `endRect`, with the encoder that
`startRect` returns: `findSolidRect` sends one colour, and `writeSubRect` what has been
compressed beforehand, if anything has. -/
inductive RectCall (k : ℕ)
  | solid (encoder : EncoderClass) (w h : ℕ) (colour : RawPixel k)
  | sub (encoder : EncoderClass) (palette : Palette (RawPixel k))
      (ppb : PreparedBuffer (RawPixel k)) (compressed : List Byte)

namespace RectCall

def encoder : RectCall k → EncoderClass
  | solid encoder _ _ _ => encoder
  | sub encoder _ _ _ => encoder

def write (set : EncoderSettings width.bytes) (pf : PixelFormatOf width) (c : RectConn Z) :
    RectCall width.bytes → Except Fault (Writes × RectConn Z)
  | solid encoder w h colour => encoder.writeSolidRectTo set pf c w h colour
  | sub encoder palette ppb compressed =>
    if compressed.length > 0 then (encoder.writeOnlyTo c.cp compressed).map fun ws => (ws, c)
    else encoder.writeRectTo set pf c palette ppb

/-- A rectangle without a single pixel. -/
def Empty : RectCall k → Prop
  | solid _ w h _ => w = 0 ∨ h = 0
  | sub _ _ ppb _ => ppb.width = 0 ∨ ppb.height = 0

end RectCall

/-- The encoders that say that the client supports UDP. -/
def EncoderClass.saysUdp : EncoderClass → Bool
  | encoderTight | encoderTightJPEG | encoderTightWEBP | encoderKasmVideo => true
  | _ => false

/-- The encoders that write nothing for no pixels. -/
def EncoderClass.bare : EncoderClass → Bool
  | encoderRaw | encoderHextile => true
  | _ => false

/-! ## Pieces on one stream -/

namespace Writes

variable {o o' : OutStream} {ws ws' : Writes} {b : List Byte}

/-- Every piece goes to one stream. -/
def Only (o : OutStream) (ws : Writes) : Prop := ∀ w ∈ ws, w.1 = o

@[simp] theorem only_nil : Only o [] := List.forall_mem_nil _

@[simp] theorem only_cons : Only o ((o', b) :: ws) ↔ o' = o ∧ ws.Only o := List.forall_mem_cons

@[simp] theorem bytes_nil : bytes [] = [] := rfl

@[simp] theorem bytes_cons : bytes ((o, b) :: ws) = b ++ ws.bytes := rfl

/-- The pieces of one stream are all on it and none on another. -/
theorem Only.on_eq (h : ws.Only o) : ws.on o' = if o = o' then ws.bytes else [] := by
  induction ws with
  | nil => simp [on]
  | cons w ws ih =>
    obtain ⟨hw, hws⟩ := only_cons.mp h
    have htail := ih hws
    unfold on at htail ⊢
    rw [List.filter_cons]
    by_cases heq : o = o'
    · rw [if_pos heq] at htail ⊢
      rw [if_pos (by simp [hw, heq]), List.flatMap_cons, htail]
      rfl
    · rw [if_neg heq] at htail ⊢
      rw [if_neg (by simp [hw, heq]), htail]

theorem Only.stayOn_iff (h : ws.Only o) : ws.StayOn o' ↔ o = o' ∨ ws.bytes = [] := by
  constructor
  · intro hstay
    by_cases heq : o = o'
    · exact Or.inl heq
    · right
      have hnone := hstay o heq
      rwa [h.on_eq, if_pos rfl] at hnone
  · rintro (rfl | hnil) o'' hne
    · rw [h.on_eq, if_neg hne.symm]
    · rw [h.on_eq, hnil, ite_self]

end Writes

theorem oneStream_startRect {cp : ConnParams} {r : Rect} {encoding : ℤ} {ws : Writes} :
    OneStream (startRectWrites cp r encoding) ws ↔ ws.StayOn (getOutStream cp.supportsUdp) := by
  simp [OneStream, startRectWrites, getOutStream]

/-! ## What each encoder writes, and where -/

section Plain

variable {palette : Palette (RawPixel k)} {pb : PreparedBuffer (RawPixel k)} {w h : ℕ}
  {colour : RawPixel k}

theorem rawWriteRect_only : (rawWriteRect pb).Only .os := by
  intro piece hpiece
  obtain ⟨y, -, rfl⟩ := List.mem_map.mp hpiece
  rfl

theorem rawWriteSolidRect_only : (rawWriteSolidRect w h colour).Only .os := by
  intro piece hpiece
  rw [List.eq_of_mem_replicate hpiece]
  rfl

theorem rreWriteRect_spec {ws : Writes} (hws : rreWriteRect palette pb = .ok ws) :
    ws.Only .os ∧ ws.bytes ≠ [] := by
  unfold rreWriteRect rreWriteSolidRect at hws
  split at hws
  · obtain rfl := Except.ok.inj hws
    simp [getOutStream, be32]
  · obtain ⟨res, -, rfl⟩ := of_map_ok hws
    simp [getOutStream, be32]

/-- A pixel has bytes. -/
theorem RawPixel.val_ne_nil (hk : 0 < k) (v : RawPixel k) : v.val ≠ [] := by
  intro hnil
  have hlength := v.property
  rw [hnil, List.length_nil] at hlength
  omega

theorem rawWriteRect_bytes (hk : 0 < k) :
    (rawWriteRect pb).bytes = [] ↔ pb.width = 0 ∨ pb.height = 0 := by
  unfold rawWriteRect Writes.bytes
  rw [List.flatMap_map, List.flatMap_eq_nil_iff]
  constructor
  · intro hrows
    by_contra! hne
    have hrow := List.flatMap_eq_nil_iff.mp (hrows 0 (List.mem_range.mpr (by omega)))
    exact RawPixel.val_ne_nil hk _ (hrow 0 (List.mem_range.mpr (by omega)))
  · rintro (hw | hh) y hy
    · rw [hw]
      rfl
    · rw [hh] at hy
      cases hy

theorem rawWriteSolidRect_bytes (hk : 0 < k) :
    (rawWriteSolidRect w h colour).bytes = [] ↔ w = 0 ∨ h = 0 := by
  rw [← Nat.mul_eq_zero]
  unfold rawWriteSolidRect Writes.bytes
  constructor
  · intro hnil
    by_contra hne
    exact RawPixel.val_ne_nil hk colour
      (List.flatMap_eq_nil_iff.mp hnil _ (List.mem_replicate.mpr ⟨hne, rfl⟩))
  · intro hzero
    rw [hzero]
    rfl

end Plain

section Hextile

variable {pb : PreparedBuffer (RawPixel width.bytes)} {w h : ℕ} {colour : RawPixel k}
  {improvedHextile : Bool} {ws : Writes}

theorem hextileWriteRect_only (hws : hextileWriteRect improvedHextile pb = .ok ws) :
    ws.Only .os := by
  obtain ⟨bytes, -, rfl⟩ := of_map_ok hws
  simp [getOutStream]

theorem hextileWriteSolidRect_spec (hws : hextileWriteSolidRect w h colour = .ok ws) :
    ws.Only .os ∧ ws.bytes ≠ [] ∧ ¬(w = 0 ∨ h = 0) := by
  obtain ⟨u, hreq, rfl⟩ := of_map_ok hws
  refine ⟨?_, by simp, ?_⟩
  · refine Writes.only_cons.mpr ⟨rfl, Writes.only_cons.mpr ⟨rfl, fun piece hpiece => ?_⟩⟩
    rw [List.eq_of_mem_replicate hpiece]
    rfl
  · -- without a tile, the loop would not have ended
    rintro (rfl | rfl) <;> simp [require] at hreq

/-- A tile has its first byte. -/
theorem HextileTile.write_ne_nil (old : OldColours k) (tile : HextileTile k) :
    (tile.write old).1 ≠ [] := by
  cases tile <;> exact List.cons_ne_nil _ _

theorem Rect.tiles_eq_nil_iff : pb.getRect.tiles 16 = [] ↔ pb.width = 0 ∨ pb.height = 0 := by
  rw [List.eq_nil_iff_forall_not_mem]
  constructor
  · intro hnone
    by_contra! hne
    have horigin : ((0, 0) : Point) ∈ Region.ofRect pb.getRect := by
      rw [Region.mem_ofRect]
      simp only [PreparedBuffer.getRect]
      omega
    obtain ⟨t, ht, -⟩ := Rect.exists_tile (show (0 : ℤ) < 16 by decide) horigin
    exact hnone t ht
  · rintro hempty t ht
    obtain ⟨x, hx, y, hy, -⟩ := Rect.mem_tiles.mp ht
    have hxbounds := (mem_strides (show (0 : ℤ) < 16 by decide) hx).1
    have hybounds := (mem_strides (show (0 : ℤ) < 16 by decide) hy).1
    simp only [PreparedBuffer.getRect] at hxbounds hybounds
    omega

theorem hextileWriteRect_bytes (hws : hextileWriteRect improvedHextile pb = .ok ws) :
    ws.bytes = [] ↔ pb.width = 0 ∨ pb.height = 0 := by
  obtain ⟨bytes, hbytes, rfl⟩ := of_map_ok hws
  have hdepicts : ∃ tiles : List (Rect × HextileTile width.bytes),
      tiles.map Prod.fst = pb.getRect.tiles 16 ∧ bytes = writeTiles {} tiles := by
    cases improvedHextile with
    | false =>
      obtain ⟨tiles, hfst, -, hencode⟩ := hextileEncode_depicts width pb
      exact ⟨tiles, hfst, Except.ok.inj (hbytes.symm.trans hencode)⟩
    | true =>
      obtain ⟨tiles, hfst, -, hencode⟩ := hextileEncodeBetter_depicts width pb
      exact ⟨tiles, hfst, Except.ok.inj (hbytes.symm.trans hencode)⟩
  obtain ⟨tiles, hfst, rfl⟩ := hdepicts
  rw [← Rect.tiles_eq_nil_iff, ← hfst]
  cases tiles with
  | nil => simp [writeTiles]
  | cons e rest => simp [writeTiles, HextileTile.write_ne_nil]

end Hextile

namespace RectConn

variable {c c' : RectConn Z} {pf : PixelFormatOf width} {palette : Palette (RawPixel width.bytes)}
  {pb : PreparedBuffer (RawPixel width.bytes)} {ws : Writes}

theorem zrleFlush_spec (c : RectConn Z) (data : List Byte) :
    (c.zrleFlush data).1.Only .os ∧ (c.zrleFlush data).1.bytes ≠ [] := by
  simp [zrleFlush, getOutStream, be32]

theorem zrleWriteRect_spec (h : c.zrleWriteRect pf palette pb = .ok (ws, c')) :
    ws.Only .os ∧ ws.bytes ≠ [] := by
  unfold zrleWriteRect at h
  split at h
  · obtain rfl := (Prod.mk.inj (Except.ok.inj h)).1
    exact c.zrleFlush_spec _
  · obtain ⟨data, -, hflush⟩ := of_map_ok h
    obtain rfl := (Prod.mk.inj hflush).1
    exact c.zrleFlush_spec data

theorem tightWriteZlib_only (c : RectConn Z) (streamId : Fin 4) (length : ℕ) (data : List Byte) :
    (c.tightWriteZlib streamId length data).1.Only c.tightOut := by
  unfold tightWriteZlib
  split <;> simp

/-- Every path of the Tight encoder asks for the stream in the same way. -/
theorem tightWriteRect_only (h : c.tightWriteRect pf palette pb = .ok (ws, c')) :
    ws.Only c.tightOut := by
  have hfull : (c.tightWriteFullColourRect pf pb).1.Only c.tightOut :=
    Writes.only_cons.mpr ⟨rfl, c.tightWriteZlib_only _ _ _⟩
  have hpalette : ∀ (control filter size colours : List Byte) (streamId : Fin 4) (length : ℕ)
      (data : List Byte), Writes.Only c.tightOut ((c.tightOut, control) :: (c.tightOut, filter) ::
        (c.tightOut, size) :: (c.tightOut, colours) ::
          (c.tightWriteZlib streamId length data).1) := by
    intro control filter size colours streamId length data
    simp only [Writes.only_cons, true_and]
    exact c.tightWriteZlib_only streamId length data
  unfold tightWriteRect at h
  split at h
  · obtain rfl := (Prod.mk.inj (Except.ok.inj h)).1
    exact hfull
  · obtain rfl := (Prod.mk.inj (Except.ok.inj h)).1
    simp [tightWriteSolidRect]
  · obtain ⟨u, -, heq⟩ := of_map_ok h
    rw [show ws = _ from (congrArg Prod.fst heq).symm]
    exact hpalette _ _ _ _ _ _ _
  · split at h
    · obtain rfl := (Prod.mk.inj (Except.ok.inj h)).1
      exact hfull
    · obtain ⟨u, -, heq⟩ := of_map_ok h
      rw [show ws = _ from (congrArg Prod.fst heq).symm]
      exact hpalette _ _ _ _ _ _ _

end RectConn

/-! ## Header and payload -/

/-- What is known of the payload of a rectangle. -/
structure Payload (klass : EncoderClass) (cp : ConnParams) (empty : Prop) (ws : Writes) :
    Prop where
  only : ws.Only (getOutStream (klass.saysUdp && cp.supportsUdp))
  bytes_iff : klass.saysUdp = false → (ws.bytes = [] ↔ klass.bare = true ∧ empty)

section Payload

variable {set : EncoderSettings width.bytes} {pf : PixelFormatOf width} {c c' : RectConn Z}
  {klass : EncoderClass} {empty : Prop} {ws : Writes}

theorem Payload.of_saysUdp (hasks : klass.saysUdp = true)
    (hws : ws.Only (getOutStream c.cp.supportsUdp)) : Payload klass c.cp empty ws where
  only := by rwa [hasks, Bool.true_and]
  bytes_iff := fun hnot => absurd (hasks.symm.trans hnot) Bool.true_eq_false.mp

theorem Payload.of_bare (hasks : klass.saysUdp = false) (hbare : klass.bare = true)
    (hws : ws.Only .os) (hbytes : ws.bytes = [] ↔ empty) : Payload klass c.cp empty ws where
  only := by rwa [hasks, Bool.false_and]
  bytes_iff := fun _ => hbytes.trans (and_iff_right hbare).symm

theorem Payload.of_ne_nil (hasks : klass.saysUdp = false) (hws : ws.Only .os)
    (hbytes : ws.bytes ≠ []) (hempty : ¬(klass.bare = true ∧ empty)) :
    Payload klass c.cp empty ws where
  only := by rwa [hasks, Bool.false_and]
  bytes_iff := fun _ => iff_of_false hbytes hempty

theorem imageWrites_only (o : OutStream) (subencoding : Byte) (out : List Byte) :
    (imageWrites o subencoding out).Only o := by
  simp [imageWrites]

theorem imageWrites_bytes (o : OutStream) (subencoding : Byte) (out : List Byte) :
    (imageWrites o subencoding out).bytes ≠ [] := by
  simp [imageWrites]

theorem writeRect_payload {palette : Palette (RawPixel width.bytes)}
    {pb : PreparedBuffer (RawPixel width.bytes)}
    (h : klass.writeRectTo set pf c palette pb = .ok (ws, c')) :
    Payload klass c.cp (pb.width = 0 ∨ pb.height = 0) ws := by
  have hbytes := width.bytes_pos
  cases klass with
  | encoderRaw =>
    obtain rfl := (Prod.mk.inj (Except.ok.inj h)).1
    exact .of_bare rfl rfl rawWriteRect_only (rawWriteRect_bytes hbytes)
  | encoderRRE =>
    obtain ⟨ws', hws', heq⟩ := of_map_ok h
    obtain rfl := (Prod.mk.inj heq).1
    obtain ⟨honly, hne⟩ := rreWriteRect_spec hws'
    exact .of_ne_nil rfl honly hne (by simp [bare])
  | encoderHextile =>
    obtain ⟨ws', hws', heq⟩ := of_map_ok h
    obtain rfl := (Prod.mk.inj heq).1
    exact .of_bare rfl rfl (hextileWriteRect_only hws') (hextileWriteRect_bytes hws')
  | encoderTight => exact .of_saysUdp rfl (RectConn.tightWriteRect_only h)
  | encoderTightJPEG =>
    obtain rfl := (Prod.mk.inj (Except.ok.inj h)).1
    exact .of_saysUdp rfl (imageWrites_only _ _ _)
  | encoderTightWEBP =>
    obtain rfl := (Prod.mk.inj (Except.ok.inj h)).1
    exact .of_saysUdp rfl (imageWrites_only _ _ _)
  | encoderTightQOI =>
    obtain rfl := (Prod.mk.inj (Except.ok.inj h)).1
    exact .of_ne_nil rfl (imageWrites_only _ _ _) (imageWrites_bytes _ _ _) (by simp [bare])
  | encoderZRLE =>
    obtain ⟨honly, hne⟩ := RectConn.zrleWriteRect_spec h
    exact .of_ne_nil rfl honly hne (by simp [bare])
  | encoderKasmVideo =>
    obtain rfl := (Prod.mk.inj (Except.ok.inj h)).1
    exact .of_saysUdp rfl (by simp [videoWriteRect])

theorem fillAndWrite_payload {w h : ℕ} {colour : RawPixel width.bytes}
    (hok : klass.fillAndWrite set pf c w h colour = .ok (ws, c')) :
    Payload klass c.cp (w = 0 ∨ h = 0) ws :=
  writeRect_payload hok

theorem writeSolidRect_payload {w h : ℕ} {colour : RawPixel width.bytes}
    (hok : klass.writeSolidRectTo set pf c w h colour = .ok (ws, c')) :
    Payload klass c.cp (w = 0 ∨ h = 0) ws := by
  have hbytes := width.bytes_pos
  cases klass with
  | encoderRaw =>
    obtain rfl := (Prod.mk.inj (Except.ok.inj hok)).1
    exact .of_bare rfl rfl rawWriteSolidRect_only (rawWriteSolidRect_bytes hbytes)
  | encoderRRE =>
    obtain rfl := (Prod.mk.inj (Except.ok.inj hok)).1
    exact .of_ne_nil rfl (by simp [rreWriteSolidRect, getOutStream])
      (by simp [rreWriteSolidRect, be32]) (by simp [bare])
  | encoderHextile =>
    obtain ⟨ws', hws', heq⟩ := of_map_ok hok
    obtain rfl := (Prod.mk.inj heq).1
    obtain ⟨honly, hne, hpixels⟩ := hextileWriteSolidRect_spec hws'
    exact .of_ne_nil rfl honly hne fun hboth => hpixels hboth.2
  | encoderTight =>
    obtain rfl := (Prod.mk.inj (Except.ok.inj hok)).1
    exact .of_saysUdp rfl (by simp [RectConn.tightWriteSolidRect, RectConn.tightOut])
  | encoderTightJPEG => exact fillAndWrite_payload hok
  | encoderTightWEBP => exact fillAndWrite_payload hok
  | encoderTightQOI => exact fillAndWrite_payload hok
  | encoderZRLE =>
    obtain rfl := (Prod.mk.inj (Except.ok.inj hok)).1
    exact .of_ne_nil rfl (c.zrleFlush_spec _).1 (c.zrleFlush_spec _).2 (by simp [bare])
  | encoderKasmVideo =>
    obtain rfl := (Prod.mk.inj (Except.ok.inj hok)).1
    exact .of_saysUdp rfl Writes.only_nil

theorem writeOnlyTo_payload {out : List Byte} (h : klass.writeOnlyTo c.cp out = .ok ws) :
    Payload klass c.cp empty ws := by
  cases klass with
  | encoderTightJPEG =>
    obtain rfl := Except.ok.inj h
    exact .of_saysUdp rfl (imageWrites_only _ _ _)
  | encoderTightWEBP =>
    obtain rfl := Except.ok.inj h
    exact .of_saysUdp rfl (imageWrites_only _ _ _)
  | encoderTightQOI =>
    obtain rfl := Except.ok.inj h
    exact .of_ne_nil rfl (imageWrites_only _ _ _) (imageWrites_bytes _ _ _) (by simp [bare])
  | _ => cases h

theorem rectCall_payload {call : RectCall width.bytes}
    (h : call.write set pf c = .ok (ws, c')) :
    Payload call.encoder c.cp call.Empty ws := by
  cases call with
  | solid encoder w h' colour => exact writeSolidRect_payload h
  | sub encoder palette ppb compressed =>
    unfold RectCall.write at h
    dsimp only at h
    split at h
    · obtain ⟨ws', hws', heq⟩ := of_map_ok h
      obtain rfl := (Prod.mk.inj heq).1
      exact writeOnlyTo_payload hws'
    · exact writeRect_payload h

end Payload

/-- **Header and payload.** They are on one stream exactly if the client does not
support UDP, or the encoder says that it does, or there is no payload. -/
theorem rect_one_stream {set : EncoderSettings width.bytes} {pf : PixelFormatOf width}
    {c c' : RectConn Z} {call : RectCall width.bytes} {ws : Writes}
    (h : call.write set pf c = .ok (ws, c')) (r : Rect) (encoding : ℤ) :
    OneStream (startRectWrites c.cp r encoding) ws ↔
      c.cp.supportsUdp = false ∨ call.encoder.saysUdp = true ∨
        (call.encoder.bare = true ∧ call.Empty) := by
  obtain ⟨honly, hbytes⟩ := rectCall_payload h
  rw [oneStream_startRect, honly.stayOn_iff]
  cases hudp : c.cp.supportsUdp with
  | false => simp [getOutStream]
  | true =>
    cases hasks : call.encoder.saysUdp with
    | true => simp [getOutStream]
    | false => simp [getOutStream, hbytes hasks]

/-- A connection to a client that supports UDP. -/
def udpConn : RectConn .stored where
  cp := { supportsUdp := true }
  zlibStreams := fun _ => ()
  zlibNeedsReset := false
  zos := ()

/-- A black pixel, as it is sent raw. -/
def blackPixel : RectCall PixelWidth.bpp32.bytes :=
  .sub encoderRaw {} ⟨1, 1, fun _ => ⟨[0, 0, 0, 0], rfl⟩⟩ []

def plainSettings (k : ℕ) : EncoderSettings k :=
  ⟨true, fun _ => [], fun _ => [], fun _ => [], ⟨0, 0, 0, []⟩⟩

/-- Its header and its bytes are on different streams. -/
theorem raw_splits_rect :
    ∃ ws c', blackPixel.write (plainSettings _) deepFormat udpConn = .ok (ws, c') ∧
      ¬OneStream (startRectWrites udpConn.cp ⟨(0, 0), (1, 1)⟩ encodingRaw) ws := by
  refine ⟨[(.os, [0, 0, 0, 0])], udpConn, rfl, fun hone => ?_⟩
  have hlost := hone (.udps, be16 0) (by simp [startRectWrites, udpConn]) .os (by decide)
  revert hlost
  decide

/-- Over Tight, the pixel would follow its header. -/
theorem tight_one_stream :
    OneStream (startRectWrites udpConn.cp ⟨(0, 0), (1, 1)⟩ encodingTight)
      (udpConn.tightWriteSolidRect deepFormat ⟨[0, 0, 0, 0], rfl⟩) :=
  (rect_one_stream (show (RectCall.solid encoderTight 1 1 ⟨[0, 0, 0, 0], rfl⟩).write
    (plainSettings _) deepFormat udpConn = .ok (_, udpConn) from rfl) _ _).mpr
    (Or.inr (Or.inl rfl))

end KasmVNC.Rfb
