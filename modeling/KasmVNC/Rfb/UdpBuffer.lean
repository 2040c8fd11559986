import KasmVNC.Rfb.TightRoundTrip
import KasmVNC.Rfb.UdpUpdate

/-!
# The buffer of the UDP stream

The buffer of `UdpStream` holds what is written between two flushes, and a write that does
not fit ends the server. Tiles are cut so that they fit. A watermark, a frame of video mode,
the whole screen in the legacy video mode without WEBP, and solid areas that go to an encoder
without a shortcut for them, are not cut at all.
-/

namespace KasmVNC.Rfb

open KasmVNC.Lib KasmVNC.Network EncoderClass

variable {width : PixelWidth} {Z : Zlib}

/-! ## Lengths -/


theorem length_writeCompact_le (v : BitVec 32) : (writeCompact v).length ≤ 3 := by
  unfold writeCompact
  dsimp only
  split
  · simp
  · split <;> simp

namespace Writes

theorem on_append (o : OutStream) (ws ws' : Writes) : (ws ++ ws').on o = ws.on o ++ ws'.on o := by
  unfold on
  rw [List.filter_append, List.flatMap_append]

/-- A stream is given a part of what is written. -/
theorem length_on_le (o : OutStream) : ∀ ws : Writes, (ws.on o).length ≤ ws.bytes.length
  | [] => le_rfl
  | w :: ws => by
    have hrest := length_on_le o ws
    unfold on at hrest ⊢
    rw [List.filter_cons, bytes, List.flatMap_cons, List.length_append]
    split
    · rw [List.flatMap_cons, List.length_append]
      exact Nat.add_le_add_left hrest _
    · exact hrest.trans (Nat.le_add_left _ _)

end Writes

/-- The header of a rectangle. -/
theorem length_startRectWrites (cp : ConnParams) (r : Rect) (encoding : ℤ) :
    (startRectWrites cp r encoding).bytes.length = 12 := by
  simp [startRectWrites, be16, be32]

/-! ## What the encoders write -/

section Encoders

variable {pf : PixelFormatOf width} {palette : Palette (RawPixel width.bytes)}
  {pb : PreparedBuffer (RawPixel width.bytes)} {c c' : RectConn Z} {ws : Writes}

variable (pf) in
theorem length_tightWritePixel_le (v : RawPixel width.bytes) :
    (tightWritePixel pf v).length ≤ 4 := by
  unfold tightWritePixel
  split
  · rw [v.property]
    exact width.bytes_le
  · show 3 ≤ 4
    decide

variable (pf) in
theorem length_tightWritePixels_le : ∀ vs : List (RawPixel width.bytes),
    (tightWritePixels pf vs).length ≤ 4 * vs.length
  | [] => le_rfl
  | v :: vs => by
    have hrest := length_tightWritePixels_le vs
    have hpixel := length_tightWritePixel_le pf v
    unfold tightWritePixels at hrest ⊢
    rw [List.flatMap_cons, List.length_append, List.length_cons]
    omega

theorem length_tightIndices : ∀ (prev : RawPixel width.bytes) (idx : Byte)
    (cs : List (RawPixel width.bytes)), (tightIndices palette prev idx cs).length = cs.length
  | _, _, [] => rfl
  | prev, idx, c :: cs => by
    unfold tightIndices
    split <;> rw [List.length_cons, List.length_cons, length_tightIndices]

theorem length_pixels (pb : PreparedBuffer (RawPixel width.bytes)) :
    pb.pixels.length = pb.width * pb.height := by
  rw [PreparedBuffer.pixels, length_raster, Nat.mul_comm]

theorem length_tightMonoData_le : (tightMonoData palette pb).length ≤ pb.width * pb.height := by
  have hrow : ∀ y ∈ List.range pb.height, (monoRow (palette.getColour 0)
      (fun x => pb.getImage pb.getRect x y) pb.width).length = (pb.width + 7) / 8 :=
    fun _ _ => length_monoRow _ _ _
  rw [tightMonoData, length_flatMap_of_length hrow, List.length_range, Nat.mul_comm]
  exact Nat.mul_le_mul_right _ (by omega)

/-- The data of a rectangle of `n` pixels, compressed or not. -/
theorem length_tightWriteZlib_le (hZ : Z.Bounded) (c : RectConn Z) (streamId : Fin 4)
    (length : ℕ) {data : List Byte} {n : ℕ} (hdata : data.length ≤ 4 * n) :
    (c.tightWriteZlib streamId length data).1.bytes.length ≤ 8 * n + 67 := by
  unfold RectConn.tightWriteZlib
  split
  · rw [Writes.bytes_cons, Writes.bytes_nil, List.append_nil]
    omega
  · dsimp only
    rw [Writes.bytes_cons, Writes.bytes_cons, Writes.bytes_nil, List.append_nil,
      List.length_append]
    have hcompact := length_writeCompact_le
      (BitVec.ofNat 32 (c.tight.compress streamId data).1.length)
    have hcompressed : (c.tight.compress streamId data).1.length ≤ 2 * data.length + 64 := hZ _ _
    omega

variable (pf pb) in
theorem length_tightWriteFullColourRect_le (hZ : Z.Bounded) (c : RectConn Z) :
    (c.tightWriteFullColourRect pf pb).1.bytes.length ≤ 8 * (pb.width * pb.height) + 68 := by
  have hdata := length_tightWritePixels_le pf pb.pixels
  rw [length_pixels] at hdata
  unfold RectConn.tightWriteFullColourRect
  dsimp only
  rw [Writes.bytes_cons, List.length_append, List.length_singleton, Nat.add_comm]
  exact Nat.add_le_add_right (length_tightWriteZlib_le hZ c 0 _ hdata) 1

/-- The control byte, the filter and a palette of up to 256 colours before the data. -/
theorem length_palette_le (hZ : Z.Bounded) (c : RectConn Z) (control filter size : Byte)
    {colours : List (RawPixel width.bytes)} (hcolours : colours.length ≤ 256)
    (streamId : Fin 4) (length : ℕ) {data : List Byte} {n : ℕ} (hdata : data.length ≤ n) :
    (Writes.bytes ((c.tightOut, [control]) :: (c.tightOut, [filter]) :: (c.tightOut, [size]) ::
      (c.tightOut, tightWritePixels pf colours) ::
        (c.tightWriteZlib streamId length data).1)).length ≤ 8 * n + 1094 := by
  have hpixels := length_tightWritePixels_le pf colours
  have hzlib := length_tightWriteZlib_le hZ c streamId length
    (show data.length ≤ 4 * n by omega)
  simp only [Writes.bytes_cons, List.length_append, List.length_singleton]
  omega

/-- No rectangle takes more than eight bytes for each pixel and a palette. -/
theorem length_tightWriteRect_le (hZ : Z.Bounded)
    (h : c.tightWriteRect pf palette pb = .ok (ws, c')) :
    ws.bytes.length ≤ 8 * (pb.width * pb.height) + 1094 := by
  have hfull := (length_tightWriteFullColourRect_le pf pb hZ c).trans
    (Nat.add_le_add_left (show 68 ≤ 1094 by decide) _)
  unfold RectConn.tightWriteRect at h
  split at h
  · obtain rfl := (Prod.mk.inj (Except.ok.inj h)).1
    exact hfull
  · obtain rfl := (Prod.mk.inj (Except.ok.inj h)).1
    have hpixel := length_tightWritePixel_le pf (palette.getColour 0)
    simp only [RectConn.tightWriteSolidRect, Writes.bytes_cons, Writes.bytes_nil,
      List.length_append, List.length_singleton, List.length_nil]
    omega
  · obtain ⟨u, -, heq⟩ := of_map_ok h
    rw [show ws = _ from (congrArg Prod.fst heq).symm]
    exact length_palette_le hZ c _ _ _ (by simp) 1 _ length_tightMonoData_le
  · split at h
    · obtain rfl := (Prod.mk.inj (Except.ok.inj h)).1
      exact hfull
    · obtain ⟨u, -, heq⟩ := of_map_ok h
      rw [show ws = _ from (congrArg Prod.fst heq).symm]
      refine length_palette_le hZ c _ _ _ ?_ 2 _ (le_of_eq ?_)
      · rw [Palette.colours, List.length_map]
        exact palette.size_le
      · rw [tightIndexedData, length_tightIndices, length_pixels]

theorem length_imageWrites_le (o : OutStream) (subencoding : Byte) (out : List Byte) :
    (imageWrites o subencoding out).bytes.length ≤ out.length + 4 := by
  have hcompact := length_writeCompact_le (BitVec.ofNat 32 out.length)
  simp only [imageWrites, Writes.bytes_cons, Writes.bytes_nil, List.length_append,
    List.length_singleton, List.length_nil]
  omega

/-- An encoder that does not say that the client supports UDP leaves its stream alone. -/
theorem Payload.on_udps {klass : EncoderClass} {cp : ConnParams} {empty : Prop}
    (h : Payload klass cp empty ws) (hasks : klass.saysUdp = false) : ws.on .udps = [] := by
  have honly := h.only
  rw [hasks, Bool.false_and] at honly
  rw [Writes.Only.on_eq (o := .os) honly, if_neg (by decide)]

end Encoders

/-! ## Tiles -/

/-- The size of the tiles that a rectangle of the screen is cut into. -/
structure Small (w h : ℕ) : Prop where
  area_le : w * h ≤ 65536
  width_le : w ≤ 2048
  height_le : h ≤ 16384

instance (w h : ℕ) : Decidable (Small w h) :=
  decidable_of_iff (w * h ≤ 65536 ∧ w ≤ 2048 ∧ h ≤ 16384)
    ⟨fun ⟨harea, hw, hh⟩ => ⟨harea, hw, hh⟩, fun ⟨harea, hw, hh⟩ => ⟨harea, hw, hh⟩⟩

theorem padded_le (n m : ℕ) : padded n m ≤ m + (n - 1) := Nat.div_mul_le_self _ _

/-- A side that is no longer than a multiple of the block is not padded beyond it. -/
theorem padded_le_of_le {n m k : ℕ} (hn : 0 < n) (h : m ≤ k * n) : padded n m ≤ k * n := by
  unfold padded
  refine Nat.mul_le_mul_right _ (Nat.le_of_lt_succ (Nat.div_lt_of_lt_mul ?_))
  rw [Nat.mul_succ, Nat.mul_comm n k]
  omega

/-- A thin tile fills one column of blocks, and any other is not high. -/
theorem padded_mul_le {n w h : ℕ} (hn : n = 8 ∨ n = 16) (hsmall : Small w h) :
    padded n w * padded n h ≤ n * 16384 := by
  obtain ⟨harea, hw, hh⟩ := hsmall
  have hpos : 0 < n := by rcases hn with rfl | rfl <;> decide
  by_cases hthin : w ≤ n
  · have hcolumn : padded n w ≤ 1 * n := padded_le_of_le hpos (by omega)
    have hrows : padded n h ≤ 16384 := by
      rcases hn with rfl | rfl
      · exact padded_le_of_le (k := 2048) hpos hh
      · exact padded_le_of_le (k := 1024) hpos hh
    exact (Nat.mul_le_mul hcolumn hrows).trans_eq (by rw [Nat.one_mul])
  · have hrows : (n + 1) * h ≤ 65536 := (Nat.mul_le_mul_right h (not_le.mp hthin)).trans harea
    calc padded n w * padded n h
        ≤ (w + (n - 1)) * (h + (n - 1)) := Nat.mul_le_mul (padded_le n w) (padded_le n h)
      _ = w * h + (n - 1) * w + (n - 1) * h + (n - 1) * (n - 1) := by ring
      _ ≤ n * 16384 := by rcases hn with rfl | rfl <;> omega

theorem imageBound_le {w h : ℕ} (hsmall : Small w h) : imageBound w h ≤ 788480 := by
  have h8 := padded_mul_le (Or.inl rfl) hsmall
  have h16 := padded_mul_le (Or.inr rfl) hsmall
  unfold imageBound
  refine Nat.add_le_add_right (Nat.max_le.mpr ⟨?_, ?_⟩) 2048
  · omega
  · omega

section Payload

variable {set : EncoderSettings width.bytes} {pf : PixelFormatOf width} {c c' : RectConn Z}
  {klass : EncoderClass} {ws : Writes}

/-- A compressed image of a small tile. -/
theorem length_on_imageWrites_le {w h : ℕ} (hsmall : Small w h) (o : OutStream)
    (subencoding : Byte) {out : List Byte} (hout : out.length ≤ imageBound w h) :
    ((imageWrites o subencoding out).on .udps).length ≤ 788484 :=
  (Writes.length_on_le _ _).trans ((length_imageWrites_le o subencoding out).trans
    (Nat.add_le_add_right (hout.trans (imageBound_le hsmall)) 4))

theorem length_on_writeRectTo_le (hZ : Z.Bounded) (hset : KeepsBound set)
    (hvideo : klass ≠ encoderKasmVideo) {palette : Palette (RawPixel width.bytes)}
    {pb : PreparedBuffer (RawPixel width.bytes)} (hsmall : Small pb.width pb.height)
    (h : klass.writeRectTo set pf c palette pb = .ok (ws, c')) :
    (ws.on .udps).length ≤ 788484 := by
  have hother : klass.saysUdp = false → (ws.on .udps).length ≤ 788484 := by
    intro hasks
    rw [(writeRect_payload h).on_udps hasks]
    exact Nat.zero_le _
  cases klass with
  | encoderTight =>
    have hpixels := hsmall.area_le
    exact (Writes.length_on_le _ _).trans ((length_tightWriteRect_le hZ h).trans (by omega))
  | encoderTightJPEG =>
    obtain rfl := (Prod.mk.inj (Except.ok.inj h)).1
    exact length_on_imageWrites_le hsmall _ _ (hset.jpeg_le pb)
  | encoderTightWEBP =>
    obtain rfl := (Prod.mk.inj (Except.ok.inj h)).1
    exact length_on_imageWrites_le hsmall _ _ (hset.webp_le pb)
  | encoderKasmVideo => exact absurd rfl hvideo
  | _ => exact hother rfl

theorem length_on_writeOnlyTo_le {cp : ConnParams} {w h : ℕ} (hsmall : Small w h) {out : List Byte}
    (hout : out.length ≤ imageBound w h) (hok : klass.writeOnlyTo cp out = .ok ws) :
    (ws.on .udps).length ≤ 788484 := by
  cases klass with
  | encoderTightJPEG | encoderTightWEBP | encoderTightQOI =>
    obtain rfl := Except.ok.inj hok
    exact length_on_imageWrites_le hsmall _ _ hout
  | _ => cases hok

/-- A solid area takes a few bytes with the Tight encoder, and is an image for others. -/
theorem length_on_writeSolidRectTo_le (hset : KeepsBound set)
    (hvideo : klass ≠ encoderKasmVideo) {w h : ℕ} {colour : RawPixel width.bytes}
    (hsmall : klass = encoderTight ∨ Small w h)
    (hok : klass.writeSolidRectTo set pf c w h colour = .ok (ws, c')) :
    (ws.on .udps).length ≤ 788484 := by
  have hother : klass.saysUdp = false → (ws.on .udps).length ≤ 788484 := by
    intro hasks
    rw [(writeSolidRect_payload hok).on_udps hasks]
    exact Nat.zero_le _
  cases klass with
  | encoderTight =>
    obtain rfl := (Prod.mk.inj (Except.ok.inj hok)).1
    have hpixel := length_tightWritePixel_le pf colour
    refine (Writes.length_on_le _ _).trans ?_
    simp only [RectConn.tightWriteSolidRect, Writes.bytes_cons, Writes.bytes_nil,
      List.length_append, List.length_singleton, List.length_nil]
    omega
  | encoderTightJPEG =>
    obtain rfl := (Prod.mk.inj (Except.ok.inj hok)).1
    exact length_on_imageWrites_le (hsmall.resolve_left (by decide)) _ _ (hset.jpeg_le _)
  | encoderTightWEBP =>
    obtain rfl := (Prod.mk.inj (Except.ok.inj hok)).1
    exact length_on_imageWrites_le (hsmall.resolve_left (by decide)) _ _ (hset.webp_le _)
  | encoderKasmVideo => exact absurd rfl hvideo
  | _ => exact hother rfl

end Payload

/-- Both sides of a rectangle of a region are those of the screen at most. -/
theorem Region.size_le_of_mem_getRects {r s : Rect} {changed : Region} {left2right topdown : Bool}
    (hsub : changed ⊆ Region.ofRect s) (hr : r ∈ changed.getRects left2right topdown) :
    r.width ≤ s.width ∧ r.height ≤ s.height := by
  obtain ⟨hx, hy⟩ := Region.getRects_nonempty hr
  have hcorner : ∀ p, p ∈ Region.ofRect r → p ∈ Region.ofRect s := fun p hp =>
    hsub (Region.mem_getRects.mp ⟨r, hr, hp⟩)
  have hfirst := Region.mem_ofRect.mp
    (hcorner r.tl (Region.mem_ofRect.mpr ⟨⟨le_rfl, hx⟩, le_rfl, hy⟩))
  have hlast := Region.mem_ofRect.mp (hcorner (r.br.1 - 1, r.br.2 - 1)
    (Region.mem_ofRect.mpr ⟨⟨Int.le_sub_one_of_lt hx, Int.sub_one_lt_of_le le_rfl⟩,
      Int.le_sub_one_of_lt hy, Int.sub_one_lt_of_le le_rfl⟩))
  unfold Rect.width Rect.height
  dsimp only at hlast
  omega

theorem small_of_bounds {w h : ℤ} (harea : w * h ≤ 65536) (hw : w ≤ 2048) (hh : h ≤ 16384) :
    Small w.toNat h.toNat := by
  refine ⟨?_, by omega, by omega⟩
  by_cases hpos : 0 ≤ w ∧ 0 ≤ h
  · have hcast : ((w.toNat * h.toNat : ℕ) : ℤ) = w * h := by
      rw [Nat.cast_mul, Int.toNat_of_nonneg hpos.1, Int.toNat_of_nonneg hpos.2]
    omega
  · have hzero : w.toNat = 0 ∨ h.toNat = 0 := by omega
    rw [Nat.mul_eq_zero.mpr hzero]
    exact Nat.zero_le _

namespace EncodeManager

/-- The tiles of a rectangle are small, unless the legacy video mode sends it whole. -/
theorem small_of_mem_subRects {ctx : EncodeContext} {m : EncodeManager} {r t : Rect}
    (hcut : (m.legacyVideo ctx && !webpSupported ctx.cp) = false) (hheight : r.height ≤ 16384)
    (ht : t ∈ m.subRects ctx r) : Small t.cols t.rows := by
  unfold subRects at ht
  split at ht
  · next hwhole =>
      obtain rfl := List.mem_singleton.mp ht
      rw [unsplit, hcut, Bool.or_false, Bool.and_eq_true, decide_eq_true_iff,
        decide_eq_true_iff] at hwhole
      exact small_of_bounds hwhole.1.le hwhole.2.le hheight
  · obtain ⟨y, hy, ht⟩ := List.mem_flatMap.mp ht
    obtain ⟨x, hx, rfl⟩ := List.mem_map.mp ht
    have hwide : r.tl.1 < r.br.1 := by
      by_contra hnot
      have hnone : (r.br.1 - r.tl.1).toNat = 0 := by omega
      rw [strides, hnone] at hx
      exact List.not_mem_nil hx
    obtain ⟨hsw, hsh⟩ := subRect_pos hwide
    have hswle : subWidth r ≤ 2048 := by
      unfold subWidth
      split
      · next hle => exact hle
      · exact le_rfl
    have harea : subWidth r * subHeight r ≤ 65536 := Int.mul_ediv_self_le hsw.ne'
    have hxle := (mem_strides hsw hx).1
    have hyle := (mem_strides hsh hy).1
    have hw : (min (x + subWidth r) r.br.1) - x ≤ subWidth r := by omega
    have hh : (min (y + subHeight r) r.br.2) - y ≤ subHeight r := by omega
    have hlow : 0 ≤ (min (y + subHeight r) r.br.2) - y := by omega
    refine small_of_bounds ((Int.mul_le_mul hw hh hlow hsw.le).trans harea) (hw.trans hswle) ?_
    show (min (y + subHeight r) r.br.2) - y ≤ 16384
    unfold Rect.height at hheight
    omega

end EncodeManager

/-! ## Pieces -/

namespace UdpUpdate

variable (u : UdpUpdate)

/-- The state that the tiles are written in. -/
def detected : EncodeManager := u.m.detect u.ctx (EncodeManager.outsideCursor u.ctx u.ui.changed)

/-- The legacy video mode sends the whole screen as one tile. -/
def sendsWhole : Bool :=
  u.detected.legacyVideo u.ctx && !EncodeManager.webpSupported u.ctx.cp

/-- What is written whatever its size. Only the Tight encoder has a shortcut for a colour. -/
def Uncut : UdpPiece u.width.bytes → Prop
  | .copy .. | .skip _ => False
  | .solid r area => area.encoder ≠ encoderTight ∧ ¬Small r.cols r.rows
  | .tile .. => u.sendsWhole = true
  | .frame .. | .watermark .. => True

/-- The tiles are cut as the update says. -/
def Cut : UdpPiece u.width.bytes → Prop
  | .tile r _ => u.sendsWhole = false → Small r.cols r.rows
  | _ => True

/-- A header, and the largest payload that a tile can have. -/
abbrev cutSize : ℕ := 788496

variable {u}

theorem cut_tiles {m : EncodeManager} {changed : Region}
    {tile : ∀ r : Rect, UdpTile u.width.bytes r} (hchanged : changed ⊆ Region.ofRect u.ctx.pbRect)
    (hm : u.sendsWhole = false →
      (m.legacyVideo u.ctx && !EncodeManager.webpSupported u.ctx.cp) = false) :
    ∀ p ∈ u.tiles m changed tile, u.Cut p := by
  intro p hp
  obtain ⟨t, ht, rfl⟩ := List.mem_map.mp hp
  obtain ⟨r, hr, ht⟩ := List.mem_flatMap.mp ht
  intro hwhole
  refine EncodeManager.small_of_mem_subRects (hm hwhole) ?_ ht
  unfold EncodeManager.mainRects at hr
  split at hr
  · obtain rfl := List.mem_singleton.mp hr
    exact u.pbRect_le.2
  · exact (Region.size_le_of_mem_getRects hchanged hr).2.trans u.pbRect_le.2

theorem foldl_sdiff_subset : ∀ (rects : List Rect) (changed : Region),
    rects.foldl (fun region r => region \ Region.ofRect r) changed ⊆ changed
  | [], _ => subset_rfl
  | _ :: rects, _ => (foldl_sdiff_subset rects _).trans Finset.sdiff_subset

theorem cut_pieces : ∀ p ∈ u.pieces, u.Cut p := by
  have hchanged : EncodeManager.outsideCursor u.ctx u.ui.changed ⊆ Region.ofRect u.ctx.pbRect := by
    unfold EncodeManager.outsideCursor
    split
    · exact Finset.sdiff_subset.trans u.changed_subset
    · exact u.changed_subset
  have hremaining : EncodeManager.remaining u.ctx
      (EncodeManager.outsideCursor u.ctx u.ui.changed) ⊆ Region.ofRect u.ctx.pbRect := by
    unfold EncodeManager.remaining
    split
    · exact hchanged
    · exact (foldl_sdiff_subset _ _).trans hchanged
  have hcursor : EncodeManager.cursorRegion u.ctx u.ui.changed ⊆ Region.ofRect u.ctx.pbRect := by
    unfold EncodeManager.cursorRegion
    split
    · exact Finset.inter_subset_left.trans u.changed_subset
    · exact Finset.empty_subset _
  unfold pieces copyPieces copypassPieces pixelPieces watermarkPieces
  simp only [List.forall_mem_append]
  refine ⟨?_, ?_, ?_, ?_⟩
  · intro p hp
    obtain ⟨r, -, rfl⟩ := List.mem_map.mp hp
    trivial
  · intro p hp
    obtain ⟨c, -, rfl⟩ := List.mem_map.mp hp
    trivial
  · intro p hp
    split at hp
    · rcases List.mem_append.mp hp with hp | hp <;> obtain ⟨_, -, rfl⟩ := List.mem_map.mp hp
      · trivial
      · trivial
    · rcases List.mem_append.mp hp with hp | hp
      · obtain ⟨r, -, rfl⟩ := List.mem_map.mp hp
        trivial
      · rcases List.mem_append.mp hp with hp | hp
        · exact cut_tiles hremaining id p hp
        · split at hp
          · cases hp
          · exact cut_tiles hcursor id p hp
  · intro p hp
    split at hp
    · obtain rfl := List.mem_singleton.mp hp
      trivial
    · cases hp

theorem length_header_append (cp : ConnParams) (r : Rect) (encoding : ℤ) (ws : Writes) :
    ((startRectWrites cp r encoding ++ ws).on .udps).length ≤ 12 + (ws.on .udps).length := by
  rw [Writes.on_append, List.length_append]
  refine Nat.add_le_add_right ((Writes.length_on_le _ _).trans_eq ?_) _
  exact length_startRectWrites cp r encoding

variable (u) in
/-- The pieces of a client that supports UDP are all on its stream. -/
theorem length_on_of_only {ws : Writes} (h : ws.Only (getOutStream u.ctx.cp.supportsUdp)) :
    (ws.on .udps).length = ws.bytes.length := by
  rw [h.on_eq, u.supportsUdp, if_pos (show getOutStream true = .udps from rfl)]

theorem header_only (r : Rect) (encoding : ℤ) :
    (startRectWrites u.ctx.cp r encoding).Only (getOutStream u.ctx.cp.supportsUdp) := by
  simp [startRectWrites, getOutStream]

/-- A frame of video mode: the screen, the codec and the key flag stand before its data. -/
theorem size_frame (c : RectConn Z) (r : Rect) (pkt : VideoPacket) :
    u.size c (.frame r pkt) =
      15 + (writeCompact (BitVec.ofNat 32 pkt.data.length)).length + pkt.data.length := by
  show ((startRectWrites _ _ _ ++ videoWriteRect _ _).on .udps).length = _
  rw [Writes.on_append, List.length_append, length_on_of_only u (header_only _ _),
    length_startRectWrites, length_on_of_only u (by simp [videoWriteRect])]
  simp only [videoWriteRect, Writes.bytes_cons, Writes.bytes_nil, List.length_append,
    List.length_singleton, List.length_nil]
  omega

/-- What is cut fits, with some room to spare. -/
theorem size_le (hZ : Z.Bounded) (c : RectConn Z) {p : UdpPiece u.width.bytes} (hcut : u.Cut p)
    (hp : ¬u.Uncut p) : u.size c p ≤ cutSize := by
  have hempty : (0 : ℕ) ≤ cutSize := Nat.zero_le _
  unfold size
  split
  · next ws c' hws =>
      cases p with
      | copy r srcX srcY =>
        obtain rfl := (Prod.mk.inj (Except.ok.inj hws)).1
        refine (length_header_append _ _ _ _).trans ?_
        refine (Nat.add_le_add_left (Writes.length_on_le _ _) 12).trans ?_
        simp [be16, cutSize]
      | solid r area =>
        obtain ⟨res, hres, heq⟩ := of_map_ok hws
        obtain rfl := (Prod.mk.inj heq).1
        refine (length_header_append _ _ _ _).trans ?_
        have hsmall : area.encoder = encoderTight ∨ Small r.cols r.rows := by
          by_contra hnot
          exact hp ⟨fun h => hnot (Or.inl h), fun h => hnot (Or.inr h)⟩
        exact Nat.add_le_add_left
          (length_on_writeSolidRectTo_le u.keepsBound area.ne_video hsmall hres) 12
      | tile r t =>
        obtain ⟨res, hres, heq⟩ := of_map_ok hws
        obtain rfl := (Prod.mk.inj heq).1
        refine (length_header_append _ _ _ _).trans ?_
        refine (Nat.add_le_add_left ?_ 12 : _ ≤ 12 + 788484)
        have hsmall : Small r.cols r.rows := hcut (Bool.eq_false_iff.mpr hp)
        unfold RectCall.write at hres
        dsimp only at hres
        split at hres
        · obtain ⟨ws', hws', heq⟩ := of_map_ok hres
          obtain rfl := heq
          exact length_on_writeOnlyTo_le hsmall t.compressed_le hws'
        · exact length_on_writeRectTo_le hZ u.keepsBound t.ne_video hsmall hres
      | frame r pkt => exact absurd trivial hp
      | skip screen =>
        obtain rfl := (Prod.mk.inj (Except.ok.inj hws)).1
        exact (Writes.length_on_le _ _).trans (by simp [cutSize])
      | watermark r w => exact absurd trivial hp
  · exact hempty

/-! ## One update -/

section Send

variable {γ : Type*} {XXH64 : List Byte → BitVec 64} {udpSize : UdpSize}

variable (u) in
/-- A piece that is not cut has to find room in the buffer. -/
def Fits (st : SMsgWriter × UdpConn Z γ) (p : UdpPiece u.width.bytes) : Prop :=
  u.Uncut p → ∀ w, p.start u.ctx st.1 = .ok w →
    st.2.stream.data.length + u.size st.2.conn p ≤ UDPSTREAM_BUFSIZE

/-- The pieces that stay in the buffer. -/
def skipsIn (ps : List (UdpPiece u.width.bytes)) : ℕ := ps.countP fun p => !p.flushes

theorem data_flush (s : UdpStream γ) : (u.flush XXH64 udpSize s).data = [] := by
  unfold flush UdpStream.flush
  cases s.client with
  | none => rfl
  | some cli => rfl

theorem put_ne_overrun_iff (hZ : Z.Bounded) {st : SMsgWriter × UdpConn Z γ}
    {p : UdpPiece u.width.bytes} (hcut : u.Cut p) (hroom : st.2.stream.data.length ≤ 32) :
    u.put XXH64 udpSize st p ≠ .error .overrun ↔ u.Fits st p := by
  unfold put Fits
  cases hstart : p.start u.ctx st.1 with
  | error err => simp
  | ok w =>
    have hsize := size_le hZ st.2.conn hcut
    unfold size at hsize ⊢
    cases hwrite : p.write u.ctx u.pf u.set { st.2.conn with cp := u.ctx.cp } with
    | error fault =>
      exact iff_of_true (fun h => nomatch h) fun _ _ _ => hroom.trans (by decide)
    | ok res =>
      obtain ⟨ws, conn⟩ := res
      rw [hwrite] at hsize
      dsimp only at hsize ⊢
      unfold UdpStream.write
      by_cases hfits : st.2.stream.data.length + (ws.on .udps).length ≤ UDPSTREAM_BUFSIZE
      · rw [if_pos hfits]
        exact iff_of_true (fun h => nomatch h) fun _ _ _ => hfits
      · rw [if_neg hfits]
        refine iff_of_false (fun h => h rfl) fun hall => hfits ?_
        by_cases huncut : u.Uncut p
        · exact hall huncut w rfl
        · exact (Nat.add_le_add hroom (hsize huncut)).trans (by decide)

/-- A flush empties the buffer, and a skip rectangle adds two bytes to it. -/
theorem put_spec {st st' : SMsgWriter × UdpConn Z γ} {p : UdpPiece u.width.bytes}
    (h : u.put XXH64 udpSize st p = .ok st') :
    (p.flushes = true ∧ st'.2.stream.data = []) ∨
      (p.flushes = false ∧ st'.1 = st.1 ∧
        st'.2.stream.data.length ≤ st.2.stream.data.length + 2) := by
  unfold put at h
  split at h
  · cases h
  · next w hstart =>
      split at h
      · cases h
      · next ws conn hwrite =>
          split at h
          · cases h
          · next s hs =>
              obtain rfl := Except.ok.inj h
              cases hflushes : p.flushes with
              | true => exact Or.inl ⟨rfl, data_flush s⟩
              | false =>
                refine Or.inr ⟨rfl, ?_, ?_⟩
                · cases p with
                  | skip screen => exact (Except.ok.inj hstart).symm
                  | _ => cases hflushes
                · obtain ⟨-, rfl⟩ := (UdpStream.write_eq_some _).mp hs
                  cases p with
                  | skip screen =>
                    obtain rfl := (Prod.mk.inj (Except.ok.inj hwrite)).1
                    show (_ ++ _ : List Byte).length ≤ _
                    rw [List.length_append]
                    exact Nat.add_le_add_left (Writes.length_on_le _ _) _
                  | _ => cases hflushes

/-- The pieces of an update, if what is left in the buffer and the skip rectangles to come
leave it nearly empty. -/
theorem run_ne_overrun_iff (hZ : Z.Bounded) {st : SMsgWriter × UdpConn Z γ}
    {ps : List (UdpPiece u.width.bytes)} (hcut : ∀ p ∈ ps, u.Cut p)
    (hroom : st.2.stream.data.length + 2 * skipsIn ps ≤ 32) :
    tryRun (u.put XXH64 udpSize) st ps ≠ .error .overrun ↔
      TryGuarded (u.put XXH64 udpSize) u.Fits st ps := by
  refine tryRun_avoids (I := fun st ps => (∀ p ∈ ps, u.Cut p) ∧
    st.2.stream.data.length + 2 * skipsIn ps ≤ 32) ?_ ?_ ⟨hcut, hroom⟩
  · rintro st p ps st' ⟨hcut, hroom⟩ hput
    refine ⟨fun p' hp' => hcut p' (List.mem_cons_of_mem p hp'), ?_⟩
    unfold skipsIn at hroom ⊢
    rw [List.countP_cons] at hroom
    rcases put_spec hput with ⟨hflushes, hdata⟩ | ⟨hflushes, -, hdata⟩
    · rw [hdata, List.length_nil]
      omega
    · rw [hflushes, Bool.not_false, if_pos rfl] at hroom
      omega
  · rintro st p ps ⟨hcut, hroom⟩
    exact put_ne_overrun_iff hZ (hcut p List.mem_cons_self) (by omega)

/-- What is left of the pieces: skip rectangles since the last flush, if there was one. -/
theorem run_left : ∀ {ps : List (UdpPiece u.width.bytes)} {st st' : SMsgWriter × UdpConn Z γ},
    tryRun (u.put XXH64 udpSize) st ps = .ok st' →
    st'.2.stream.data.length ≤ 2 * skipsIn ps ∨ (∀ p ∈ ps, p.flushes = false) ∧ st'.1 = st.1 ∧
      st'.2.stream.data.length ≤ st.2.stream.data.length + 2 * skipsIn ps
  | [], st, st', h => by
    obtain rfl := Except.ok.inj h
    exact Or.inr ⟨fun _ hp => absurd hp List.not_mem_nil, rfl, Nat.le_add_right _ _⟩
  | p :: ps, st, st', h => by
    obtain ⟨st₁, hput, hrest⟩ := of_bind_ok h
    have hcount : skipsIn ps ≤ skipsIn (p :: ps) := by
      unfold skipsIn
      rw [List.countP_cons]
      exact Nat.le_add_right _ _
    rcases run_left hrest with hleft | ⟨hnone, hwriter, hleft⟩
    · exact Or.inl (hleft.trans (Nat.mul_le_mul_left 2 hcount))
    · rcases put_spec hput with ⟨-, hdata⟩ | ⟨hflushes, hwriter', hdata⟩
      · rw [hdata, List.length_nil, Nat.zero_add] at hleft
        exact Or.inl (hleft.trans (Nat.mul_le_mul_left 2 hcount))
      · refine Or.inr ⟨List.forall_mem_cons.mpr ⟨hflushes, hnone⟩, hwriter.trans hwriter', ?_⟩
        have hmore : skipsIn (p :: ps) = skipsIn ps + 1 := by
          unfold skipsIn
          rw [List.countP_cons, hflushes, Bool.not_false, if_pos rfl]
        omega

theorem skipsIn_append (ps qs : List (UdpPiece u.width.bytes)) :
    skipsIn (ps ++ qs) = skipsIn ps + skipsIn qs :=
  List.countP_append

/-- Pieces of a kind that is flushed. -/
theorem skipsIn_map {α : Type*} {f : α → UdpPiece u.width.bytes}
    (hf : ∀ a, (f a).flushes = true) (as : List α) : skipsIn (as.map f) = 0 := by
  refine List.countP_eq_zero.mpr fun p hp => ?_
  obtain ⟨a, -, rfl⟩ := List.mem_map.mp hp
  rw [hf a]
  exact Bool.false_ne_true

theorem skipsIn_pieces_le : skipsIn u.pieces ≤ u.skips.length := by
  unfold pieces
  rw [skipsIn_append, skipsIn_append, skipsIn_append, copyPieces, copypassPieces,
    skipsIn_map fun _ => rfl, skipsIn_map fun _ => rfl]
  have hwatermark : skipsIn u.watermarkPieces = 0 := by
    unfold watermarkPieces
    split <;> rfl
  have hpixels : skipsIn u.pixelPieces ≤ u.skips.length := by
    unfold pixelPieces
    dsimp only
    split
    · rw [skipsIn_append, skipsIn_map (f := fun r => .frame r (u.packet r)) fun _ => rfl]
      exact List.countP_le_length.trans_eq (List.length_map _)
    · rw [skipsIn_append, skipsIn_append, skipsIn_map fun _ => rfl, tiles, skipsIn_map fun _ => rfl]
      split
      · exact Nat.zero_le _
      · rw [tiles, skipsIn_map fun _ => rfl]
        exact Nat.zero_le _
  omega

/-- An update that announces no rectangle has nothing to send. -/
theorem pieces_eq_nil (hcount : u.m.nRects u.ctx u.ui = 0)
    (hnone : ∀ p ∈ u.pieces, p.flushes = false) : u.pieces = [] := by
  have hcounts : u.ui.copied.numRects = 0 ∧ u.ui.copypassed.length = 0 ∧
      u.m.computeNumRects u.ctx (EncodeManager.outsideCursor u.ctx u.ui.changed) = 0 ∧
      u.m.computeNumRects u.ctx (EncodeManager.cursorRegion u.ctx u.ui.changed) = 0 := by
    unfold EncodeManager.nRects at hcount
    split at hcount
    · cases hcount
    · omega
  obtain ⟨hcopied, hcopypassed, houtside, hcursor⟩ := hcounts
  rw [EncodeManager.computeNumRects_eq_zero] at houtside hcursor
  have hchanged : u.ui.changed = ∅ := by
    unfold EncodeManager.outsideCursor at houtside
    unfold EncodeManager.cursorRegion at hcursor
    split at houtside
    · next r hr =>
        rw [hr] at hcursor
        dsimp only at hcursor
        rw [← Finset.sdiff_union_inter u.ui.changed (Region.ofRect r), houtside, hcursor,
          Finset.empty_union]
    · exact houtside
  have hcopied : u.ui.copied = ∅ := by
    rw [← Region.length_getRects _ true true, List.length_eq_zero_iff] at hcopied
    exact Region.getRects_eq_nil.mp hcopied
  have hskips : u.skips = [] := by
    by_contra hne
    rcases u.nonempty_of_skip hne with h | h | h
    · exact h hchanged
    · exact h hcopied
    · exact h (List.length_eq_zero_iff.mp hcopypassed)
  have hall : skipsIn u.pieces = u.pieces.length :=
    List.countP_eq_length.mpr fun p hp => by rw [hnone p hp, Bool.not_false]
  have hfew := skipsIn_pieces_le (u := u)
  rw [hall, hskips, List.length_nil, Nat.le_zero] at hfew
  exact List.length_eq_zero_iff.mp hfew

variable (XXH64 udpSize) in
/-- Each piece of an update that is not cut finds room when it is written. -/
def Guard (st : UdpConn Z γ) (u : UdpUpdate) : Prop :=
  ∀ w, u.writer.writeFramebufferUpdateStart u.ctx.cp (u.m.nRects u.ctx u.ui) = .ok w →
    TryGuarded (u.put XXH64 udpSize) u.Fits
      (w, ⟨st.conn, st.stream.setFrameNumber u.updates⟩) u.pieces

theorem finish_ne_overrun {st : SMsgWriter × UdpConn Z γ}
    (hroom : st.2.stream.data.length ≤ 32) : u.finish XXH64 udpSize st ≠ .error .overrun := by
  unfold finish
  split
  · exact fun h => nomatch h
  · split
    · have hfits : st.2.stream.data.length + (lastRectBytes st.1).length ≤ UDPSTREAM_BUFSIZE := by
        have hmarker : (lastRectBytes st.1).length = 12 := rfl
        rw [hmarker]
        exact (Nat.add_le_add_right hroom 12).trans (by decide)
      unfold UdpStream.write
      rw [if_pos hfits]
      exact fun h => nomatch h
    · exact fun h => nomatch h

/-- The writer after the header. -/
theorem started {w : SMsgWriter}
    (h : u.writer.writeFramebufferUpdateStart u.ctx.cp (u.m.nRects u.ctx u.ui) = .ok w) :
    u.m.Started u.ctx u.ui u.writer w := by
  by_cases hs : ∀ p ∈ u.writer.need, p.supported u.ctx.cp = true
  · obtain ⟨w₁, hw₁, hstarted⟩ := EncodeManager.start_ok (m := u.m) hs
    obtain rfl := Except.ok.inj (hw₁.symm.trans h)
    exact hstarted
  · obtain ⟨p, hp, hrefused⟩ : ∃ p ∈ u.writer.need, p.supported u.ctx.cp = false := by
      simpa using hs
    obtain ⟨msg, hmsg⟩ := SMsgWriter.writeFramebufferUpdateStart_refused hrefused hp
      (u.m.nRects u.ctx u.ui)
    cases hmsg.symm.trans h

/-- An update that ends well without a rectangle announces none. -/
theorem nRects_eq_zero {w w' : SMsgWriter}
    (h : u.writer.writeFramebufferUpdateStart u.ctx.cp (u.m.nRects u.ctx u.ui) = .ok w)
    (hend : w.writeFramebufferUpdateEnd u.ctx.cp = .ok w') (hheader : w.nRectsInHeader ≠ 0) :
    u.m.nRects u.ctx u.ui = 0 := by
  have hstarted := started h
  have hcount : w.nRectsInUpdate = w.nRectsInHeader := by
    unfold SMsgWriter.writeFramebufferUpdateEnd at hend
    split at hend
    · cases hend
    · next hsync => exact not_not.mp fun hne => hsync ⟨hne, hheader⟩
  rw [hstarted.nRectsInHeader] at hheader
  have hannounced := EncodeManager.headerCount_eq hheader
  rw [hstarted.nRectsInUpdate, hstarted.nRectsInHeader, hannounced] at hcount
  omega

/-- After an update, only the skip rectangles of the last screens are left. -/
theorem doUpdate_left {st st' : UdpConn Z γ} (hroom : st.stream.data.length ≤ 16)
    (h : u.doUpdate XXH64 udpSize st = .ok st') : st'.stream.data.length ≤ 16 := by
  unfold doUpdate at h
  split at h
  · cases h
  · next w hstart =>
      obtain ⟨st₁, hrun, hfinish⟩ := of_bind_ok h
      have hskips := (skipsIn_pieces_le (u := u)).trans u.skips_le
      unfold finish at hfinish
      split at hfinish
      · cases hfinish
      · next w' hend =>
          split at hfinish
          · -- the marker is flushed
            split at hfinish
            · cases hfinish
            · obtain rfl := Except.ok.inj hfinish
              rw [data_flush]
              exact Nat.zero_le _
          · next hheader =>
              obtain rfl := Except.ok.inj hfinish
              rcases run_left hrun with hleft | ⟨hnone, hwriter, hleft⟩
              · omega
              · -- no rectangle was written, so none was announced
                rw [hwriter] at hend hheader
                rw [pieces_eq_nil (nRects_eq_zero hstart hend hheader) hnone] at hleft
                exact hleft.trans hroom

theorem doUpdate_ne_overrun_iff (hZ : Z.Bounded) {st : UdpConn Z γ}
    (hroom : st.stream.data.length ≤ 16) :
    u.doUpdate XXH64 udpSize st ≠ .error .overrun ↔ Guard XXH64 udpSize st u := by
  have hskips := (skipsIn_pieces_le (u := u)).trans u.skips_le
  unfold doUpdate Guard
  cases hstart : u.writer.writeFramebufferUpdateStart u.ctx.cp (u.m.nRects u.ctx u.ui) with
  | error err => exact iff_of_true (fun h => nomatch h) fun w hw => nomatch hw
  | ok w =>
    have hstream : st.stream.data.length + 2 * skipsIn u.pieces ≤ 32 := by omega
    have hrun : tryRun (u.put XXH64 udpSize)
        (w, ⟨st.conn, st.stream.setFrameNumber u.updates⟩) u.pieces ≠ .error .overrun ↔ _ :=
      run_ne_overrun_iff hZ cut_pieces hstream
    have hall : ∀ P : SMsgWriter → Prop, (∀ w', Except.ok (ε := WriterError) w = .ok w' → P w') ↔
        P w := fun P => ⟨fun h => h w rfl, fun h w' hw' => Except.ok.inj hw' ▸ h⟩
    rw [hall, ← hrun]
    dsimp only
    cases hps : tryRun (u.put XXH64 udpSize)
      (w, ⟨st.conn, st.stream.setFrameNumber u.updates⟩) u.pieces with
    | error err =>
      rw [bind_error rfl]
      simp
    | ok st₁ =>
      rw [bind_ok rfl]
      refine iff_of_true (finish_ne_overrun ?_) (fun h => nomatch h)
      rcases run_left hps with hleft | ⟨-, -, hleft⟩
      · omega
      · exact hleft.trans hstream

end Send

end UdpUpdate

/-! ## A run of updates -/

/-- **The buffer is kept.** Updates that are sent to a client from the start overrun the
buffer of the stream exactly if some piece that is not cut does not fit. -/
theorem udp_buffer_kept_iff {γ : Type*} (XXH64 : List Byte → BitVec 64) (udpSize : UdpSize)
    (hZ : Z.Bounded) (conn : RectConn Z) (cli : γ) (us : List UdpUpdate) :
    tryRun (fun st u => u.doUpdate XXH64 udpSize st) ⟨conn, UdpStream.new.setClient cli⟩ us ≠
        .error .overrun ↔
      TryGuarded (fun st u => u.doUpdate XXH64 udpSize st) (UdpUpdate.Guard XXH64 udpSize)
        ⟨conn, UdpStream.new.setClient cli⟩ us :=
  tryRun_avoids (I := fun st _ => st.stream.data.length ≤ 16)
    (fun _ _ _ _ hroom hst => UdpUpdate.doUpdate_left hroom hst)
    (fun _ _ _ hroom => UdpUpdate.doUpdate_ne_overrun_iff hZ hroom) (Nat.zero_le 16)

theorem tight_ne_video : encoderTight ≠ encoderKasmVideo := by decide

theorem noColours_nodup :
    (([] : List (PaletteEntry (RawPixel PixelWidth.bpp32.bytes))).map (·.colour)).Nodup :=
  List.nodup_nil

theorem noEntries_sorted :
    Sorted ([] : List (PaletteEntry (RawPixel PixelWidth.bpp32.bytes))) :=
  List.Pairwise.nil

theorem compressed_zero_le (r : Rect) : ([] : List Byte).length ≤ imageBound r.cols r.rows :=
  Nat.zero_le _

/-- A black tile in full colour. -/
def blackTile (r : Rect) : UdpTile PixelWidth.bpp32.bytes r :=
  ⟨encoderTight, ⟨[], noColours_nodup, noEntries_sorted, noEntries_le⟩, fun _ => default, [],
    tight_ne_video, compressed_zero_le r⟩

/-- A client that supports UDP, in video mode, with one screen. -/
def videoContext : EncodeContext :=
  { onePixelContext false false with
    cp := udpConn.cp
    videoModeAvailable := true
    encoderAvailable := true
    screenFrames := fun _ => some [⟨(0, 0), (4, 4)⟩] }

theorem screen_le : videoContext.pbRect.width ≤ 16384 ∧ videoContext.pbRect.height ≤ 16384 := by
  decide

theorem pixel_subset : onePixelUpdate.changed ⊆ Region.ofRect videoContext.pbRect := by decide

theorem plain_keepsBound (k : ℕ) : KeepsBound (plainSettings k) :=
  ⟨fun _ => Nat.zero_le _, fun _ => Nat.zero_le _⟩

/-- One changed pixel, and the packet for its screen. -/
def videoUpdate (data : List Byte) : UdpUpdate where
  ctx := videoContext
  m := ⟨false, fun _ => 0, 0⟩
  ui := onePixelUpdate
  writer := {}
  updates := 1
  width := .bpp32
  pf := deepFormat
  set := plainSettings _
  solid := fun _ => ⟨encoderTight, default, tight_ne_video⟩
  tile := blackTile
  cursorTile := blackTile
  skips := []
  packet := fun _ => ⟨0, 0x10, 1, data⟩
  watermark := ⟨0, 0, 0, 0, []⟩
  sends := fun _ _ => true
  supportsUdp := rfl
  pbRect_le := screen_le
  changed_subset := pixel_subset
  skips_le := Nat.zero_le _
  nonempty_of_skip := fun hne => absurd rfl hne
  keepsBound := plain_keepsBound _

theorem videoUpdate_pieces (data : List Byte) :
    (videoUpdate data).pieces = [.frame ⟨(0, 0), (4, 4)⟩ ⟨0, 0x10, 1, data⟩] := by
  rfl

/-- The start of a client, and the size of its pieces over UDP. -/
def udpStart : UdpConn .stored Unit := ⟨udpConn, UdpStream.new.setClient ()⟩

theorem size_ge : 500 ≤ 1000 := by decide

theorem size_le_max : 1000 ≤ 1400 := by decide

def thousand : UdpSize := ⟨1000, size_ge, size_le_max⟩

/-- The header announces one rectangle. -/
theorem videoUpdate_start (data : List Byte) :
    ∃ w, (videoUpdate data).writer.writeFramebufferUpdateStart (videoUpdate data).ctx.cp
      ((videoUpdate data).m.nRects (videoUpdate data).ctx (videoUpdate data).ui) = .ok w ∧
        w.Room 1 := by
  have hcount : (videoUpdate data).m.nRects (videoUpdate data).ctx (videoUpdate data).ui = 1 := by
    show EncodeManager.nRects videoContext ⟨false, fun _ => 0, 0⟩ onePixelUpdate = 1
    decide
  rw [hcount]
  exact ⟨_, rfl, Or.inr le_rfl⟩

theorem videoUpdate_guard_iff (data : List Byte) :
    UdpUpdate.Guard (fun _ => 0) thousand udpStart (videoUpdate data) ↔
      15 + (writeCompact (BitVec.ofNat 32 data.length)).length + data.length ≤
        UDPSTREAM_BUFSIZE := by
  have hsize : ∀ c : RectConn .stored, (videoUpdate data).size c
      (.frame ⟨(0, 0), (4, 4)⟩ ⟨0, 0x10, 1, data⟩) =
        15 + (writeCompact (BitVec.ofNat 32 data.length)).length + data.length :=
    fun c => UdpUpdate.size_frame c _ _
  unfold UdpUpdate.Guard
  rw [videoUpdate_pieces]
  constructor
  · intro h
    obtain ⟨w, hstart, hroom⟩ := videoUpdate_start data
    obtain ⟨w', hw', -⟩ := (sends_startRect videoContext.cp ⟨(0, 0), (4, 4)⟩
      (videoContext.encodingOf ⟨(0, 0), (4, 4)⟩) w (hroom.mono (Nat.zero_le 1))).1 hroom
    have hfits := (h w hstart).1 trivial w' hw'
    rw [hsize] at hfits
    exact (Nat.le_add_left _ _).trans hfits
  · rintro hle w -
    refine ⟨fun _ _ _ => ?_, fun _ _ => trivial⟩
    rw [hsize]
    exact (Nat.zero_add _).le.trans hle

/-- A small packet is sent. -/
theorem udp_buffer_kept_packet :
    tryRun (fun st u => u.doUpdate (fun _ => 0) thousand st) udpStart [videoUpdate [1, 2, 3]] ≠
      .error .overrun :=
  (udp_buffer_kept_iff _ _ Zlib.stored_bounded udpConn () _).mpr
    ⟨(videoUpdate_guard_iff _).mpr (by decide), fun _ _ => trivial⟩

/-- A packet as large as the buffer ends the server. -/
theorem packet_overruns :
    tryRun (fun st u => u.doUpdate (fun _ => 0) thousand st) udpStart
      [videoUpdate (List.replicate 1048576 0)] = .error .overrun := by
  have hlarge : ¬UdpUpdate.Guard (fun _ => 0) thousand udpStart
      (videoUpdate (List.replicate 1048576 0)) := by
    rw [videoUpdate_guard_iff, List.length_replicate]
    unfold UDPSTREAM_BUFSIZE
    omega
  have hempty : udpStart.stream.data.length ≤ 16 := Nat.zero_le 16
  rw [← UdpUpdate.doUpdate_ne_overrun_iff Zlib.stored_bounded hempty, not_not] at hlarge
  exact bind_error hlarge _

end KasmVNC.Rfb
