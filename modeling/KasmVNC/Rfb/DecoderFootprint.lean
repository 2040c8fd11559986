import KasmVNC.Lib.Commute
import KasmVNC.Rfb.DecodeManager

/-!
# What a decoder touches

A decoder that draws makes an image of the bytes of its rectangle and of its zlib stream,
whatever is in the frame, and puts it into the rectangle. `Draws` says so of a reader, and
follows the text of the decoders: reads first, pieces of the image one after another.
CopyRect is the only one that looks at the frame.
-/

namespace KasmVNC.Rfb

open KasmVNC.Lib Reader

variable {κ : Type} {α β γ δ : Type} {k : ℕ} {width : PixelWidth}

/-! ## Drawing -/

/-- The reader fails for all frames, or overwrites the same part of the region in all of
them with the same pixels and has the same other results. -/
def Draws (R : Region) (pack : (Point → α) → β → γ) (D : (Point → α) → Reader κ γ) : Prop :=
  ∀ s, (∃ msg, ∀ f, D f s = .error msg) ∨
    ∃ S ⊆ R, ∃ fresh b s', ∀ f, D f s = .ok (pack (paint S fresh f) b, s')

theorem paint_paint {S T : Region} {fresh fresh' f : Point → α} :
    paint S fresh (paint T fresh' f) = paint (S ∪ T) (paint S fresh fresh') f := by
  funext p
  by_cases hS : p ∈ S
  · rw [paint_of_mem hS, paint_of_mem (Finset.mem_union_left T hS), paint_of_mem hS]
  · by_cases hT : p ∈ T
    · rw [paint_of_notMem hS, paint_of_mem hT, paint_of_mem (Finset.mem_union_right S hT),
        paint_of_notMem hS]
    · have hST : p ∉ S ∪ T := by simp [hS, hT]
      rw [paint_of_notMem hS, paint_of_notMem hT, paint_of_notMem hST]

theorem exists_imageRect_eq (t : Rect) (image : Block α) :
    ∃ fresh, ∀ f, imageRect t image f = paint (Region.ofRect t) fresh f :=
  ⟨fun p => image (p.1 - t.tl.1).toNat (p.2 - t.tl.2).toNat, fun _ => rfl⟩

section Draws

variable {R : Region} {pack : (Point → α) → β → γ}

theorem Draws.pure [Inhabited α] (b : β) : Draws R pack fun f => (pure (pack f b) : Reader κ γ) :=
  fun s => .inr ⟨∅, Finset.empty_subset R, default, b, s, fun _ => rfl⟩

theorem Draws.fail (msg : String) : Draws R pack fun _ => (Reader.fail msg : Reader κ γ) :=
  fun _ => .inl ⟨msg, fun _ => rfl⟩

/-- What is read does not depend on the frame. -/
theorem Draws.read {r : Reader κ δ} {D : δ → (Point → α) → Reader κ γ}
    (h : ∀ a, Draws R pack (D a)) : Draws R pack fun f => r >>= fun a => D a f := by
  intro s
  cases hr : r s with
  | error msg =>
    left
    refine ⟨msg, fun f => ?_⟩
    exact bind_error hr _
  | ok res =>
    have hbind : ∀ f, (r >>= fun a => D a f) s = D res.1 f res.2 := fun f => bind_ok hr _
    simp only [hbind]
    exact h res.1 res.2

/-- A piece of the image. -/
theorem Draws.image {D : (Point → α) → Reader κ γ} (h : Draws R pack D) {t : Rect}
    (ht : Region.ofRect t ⊆ R) (image : Block α) :
    Draws R pack fun f => D (imageRect t image f) := by
  intro s
  obtain ⟨fresh', himage⟩ := exists_imageRect_eq t image
  rcases h s with ⟨msg, herr⟩ | ⟨S, hS, fresh, b, s', hok⟩
  · left
    exact ⟨msg, fun f => herr _⟩
  · right
    refine ⟨S ∪ Region.ofRect t, Finset.union_subset hS ht, paint S fresh fresh', b, s', ?_⟩
    intro f
    rw [← paint_paint, ← himage]
    exact hok _

/-- The other results, packed in another way. -/
theorem Draws.repack {β' : Type} {pack' : (Point → α) → β' → δ} {D : (Point → α) → Reader κ γ}
    (h : Draws R pack D) {g : γ → δ} {c : β → β'} (hg : ∀ f b, g (pack f b) = pack' f (c b)) :
    Draws R pack' fun f => D f >>= fun x => Pure.pure (g x) := by
  intro s
  rcases h s with ⟨msg, herr⟩ | ⟨S, hS, fresh, b, s', hok⟩
  · left
    exact ⟨msg, fun f => bind_error (herr f) _⟩
  · right
    refine ⟨S, hS, fresh, c b, s', fun f => ?_⟩
    rw [← hg]
    exact bind_ok (hok f) _

end Draws

/-! ## The decoders that draw -/

/-- A frame alone. -/
abbrev frameOnly (f : Point → α) (_ : Unit) : Point → α := f

theorem rawDecode_draws (r : Rect) :
    Draws (Region.ofRect r) frameOnly (@rawDecode width r) :=
  Draws.read fun _ => (Draws.pure ()).image (Finset.Subset.refl _) _

/-- The subrects lie in the rectangle. -/
theorem rreDecodeSubrects_draws (r : Rect) : ∀ n,
    Draws (κ := κ) (Region.ofRect r) frameOnly (rreDecodeSubrects (k := k) r n)
  | 0 => Draws.pure ()
  | n + 1 => by
    refine Draws.read fun pix => Draws.read fun x => Draws.read fun y => Draws.read fun w =>
      Draws.read fun h => ?_
    by_cases hout : (x.toNat + w.toNat : ℤ) > r.width ∨ (y.toNat + h.toNat : ℤ) > r.height
    · simp only [if_pos hout]
      exact Draws.fail _
    · simp only [if_neg hout]
      refine (rreDecodeSubrects_draws r n).image (fun p hp => ?_) _
      rw [Region.mem_ofRect] at hp ⊢
      simp only [Rect.width, Rect.height] at hout hp
      omega

theorem rreDecode_draws (r : Rect) :
    Draws (κ := κ) (Region.ofRect r) frameOnly (rreDecode k r) :=
  Draws.read fun _ => Draws.read fun _ =>
    (rreDecodeSubrects_draws r _).image (Finset.Subset.refl _) _

theorem hextileDecodeTiles_draws {R : Region} : ∀ {ts : List Rect} (colours : HextileColours k),
    (∀ t ∈ ts, Region.ofRect t ⊆ R) →
      Draws (κ := κ) R frameOnly (hextileDecodeTiles ts colours)
  | [], _, _ => Draws.pure ()
  | t :: _, _, hts => Draws.read fun res =>
    (hextileDecodeTiles_draws res.2 fun u hu => hts u (List.mem_cons_of_mem t hu)).image
      (hts t List.mem_cons_self) _

theorem hextileDecode_draws (r : Rect) :
    Draws (κ := κ) (Region.ofRect r) frameOnly (hextileDecode k r) :=
  hextileDecodeTiles_draws _ fun _ ht _ hp => Rect.tile_subset (by decide) ht hp

theorem zrleDecodeTiles_draws {R : Region} (readPx : Reader κ (RawPixel k)) :
    ∀ (ts : List Rect), (∀ t ∈ ts, Region.ofRect t ⊆ R) →
      Draws R frameOnly (zrleDecodeTiles readPx ts)
  | [], _ => Draws.pure ()
  | t :: ts, hts => Draws.read fun image =>
    (zrleDecodeTiles_draws readPx ts fun u hu => hts u (List.mem_cons_of_mem t hu)).image
      (hts t List.mem_cons_self) image

theorem zrleDecode_draws (readPx : Reader κ (RawPixel k)) (Z : Zlib) (zis : Z.Inflate) (r : Rect) :
    Draws (Region.ofRect r) Prod.mk (zrleDecode readPx Z zis r) := by
  refine Draws.read fun bytes => ?_
  cases Z.decompress zis bytes with
  | error msg => exact Draws.fail msg
  | ok res =>
    intro s
    have hsub : ∀ t ∈ r.tiles 64, Region.ofRect t ⊆ Region.ofRect r :=
      fun t ht p hp => Rect.tile_subset (by decide) ht hp
    have htiles := zrleDecodeTiles_draws readPx (r.tiles 64) hsub ⟨res.1, []⟩
    rcases htiles with ⟨msg, herr⟩ | ⟨S, hS, fresh, b, s', hok⟩
    · left
      refine ⟨msg, fun f => ?_⟩
      simp only [herr]
      rfl
    · right
      refine ⟨S, hS, fresh, res.2, s, fun f => ?_⟩
      simp only [hok]
      rfl

theorem tightDecodeRect_draws (pf : PixelFormatOf width) (filters : OtherFilters width.bytes)
    (Z : Zlib) (zis : Fin 4 → Z.Inflate) (r : Rect) :
    Draws (κ := κ) (Region.ofRect r) Prod.mk (tightDecodeRect pf filters Z zis r) := by
  have hdraw : ∀ (image : Block (RawPixel width.bytes)) (zis : Fin 4 → Z.Inflate),
      Draws (κ := κ) (Region.ofRect r) Prod.mk fun f => pure (imageRect r image f, zis) :=
    fun image zis => (Draws.pure zis).image (Finset.Subset.refl _) image
  refine Draws.read fun byte => ?_
  by_cases hfill : byte >>> 4 = tightFill
  · simp only [if_pos hfill]
    exact Draws.read fun pix => hdraw _ _
  by_cases hjpeg : byte >>> 4 = tightJpeg
  · simp only [if_neg hfill, if_pos hjpeg]
    exact Draws.read fun len => Draws.read fun image => hdraw _ _
  by_cases hmax : byte >>> 4 > tightMaxSubencoding
  · simp only [if_neg hfill, if_neg hjpeg, if_pos hmax]
    exact Draws.fail _
  simp only [if_neg hfill, if_neg hjpeg, if_neg hmax]
  refine Draws.read fun filter => Draws.read fun data => ?_
  cases tightDecodePixels pf filters filter.1 filter.2 r.cols r.rows data.1 with
  | error msg => exact Draws.fail msg
  | ok image => exact hdraw image _

/-! ## The streams of Tight -/

/-- The streams that `doRectsConflict` sees a Tight rectangle use. -/
def tightStreams (comp_ctl : Byte) : Set (Fin 4) :=
  {i | (tightStreamBits comp_ctl).getLsbD i = true}

/-- A stream that is reset is one of them. -/
theorem tightStreamBits_of_reset (comp_ctl : Byte) (i : Fin 4)
    (h : comp_ctl.getLsbD i = true) : (tightStreamBits comp_ctl).getLsbD i = true := by
  unfold tightStreamBits
  split
  · rw [BitVec.getLsbD_or, h, Bool.true_or]
  · exact h

/-- So is the stream with the data, as long as the decoder knows how the rectangle is sent. -/
theorem tightStreamBits_of_data : ∀ comp_ctl : Byte, comp_ctl >>> 4 ≤ tightJpeg →
    comp_ctl >>> 4 ≠ tightFill → comp_ctl >>> 4 ≠ tightJpeg →
      (tightStreamBits comp_ctl).getLsbD (Fin.ofNat 4 ((comp_ctl >>> 4) &&& 0x03).toNat) =
        true := by
  decide

section Tight

variable (pf : PixelFormatOf width) (filters : OtherFilters width.bytes) (Z : Zlib)
  (zis : Fin 4 → Z.Inflate) (r : Rect) (frame : Point → RawPixel width.bytes)

/-- The loop over the streams at the start of `decodeRect`. -/
def tightReset (comp_ctl : Byte) (i : Fin 4) : Z.Inflate :=
  if comp_ctl.getLsbD i then Z.resetInflate (zis i) else zis i

/-- The rest of `decodeRect`. -/
def tightDecodeBody (comp_ctl : Byte) :
    Reader κ ((Point → RawPixel width.bytes) × (Fin 4 → Z.Inflate)) :=
  if comp_ctl = tightFill then do
    let pix ← tightReadPixel pf
    pure (imageRect r (fun _ _ => pix) frame, zis)
  else if comp_ctl = tightJpeg then do
    let len ← readU32
    let image ← readBytes len.toNat
    pure (imageRect r (filters.jpeg image) frame, zis)
  else if comp_ctl > tightMaxSubencoding then fail "assertion"
  else do
    let filter ← tightReadFilter pf comp_ctl
    let streamId : Fin 4 := Fin.ofNat 4 (comp_ctl &&& 0x03).toNat
    let data ← tightReadData Z (zis streamId) (tightDataSize pf filter.1.length r.cols r.rows)
    match tightDecodePixels pf filters filter.1 filter.2 r.cols r.rows data.1 with
    | .error msg => fail msg
    | .ok image => pure (imageRect r image frame, Function.update zis streamId data.2)

theorem tightDecodeRect_eq : (tightDecodeRect pf filters Z zis r frame : Reader κ _) =
    readU8 >>= fun byte =>
      tightDecodeBody pf filters Z (tightReset Z zis byte) r frame (byte >>> 4) := rfl

variable {pf filters Z zis r frame}

theorem tightReset_of_notMem {comp_ctl : Byte} {i : Fin 4} (hi : i ∉ tightStreams comp_ctl) :
    tightReset Z zis comp_ctl i = zis i :=
  if_neg fun hbit => hi (tightStreamBits_of_reset comp_ctl i hbit)

/-- Of the streams, only the one with the data matters and changes. -/
theorem tightDecodeBody_streams {U : Set (Fin 4)} {comp_ctl : Byte} (zis' : Fin 4 → Z.Inflate)
    (hU : comp_ctl ≠ tightFill → comp_ctl ≠ tightJpeg →
      Fin.ofNat 4 (comp_ctl &&& 0x03).toNat ∈ U) (hagree : ∀ i ∈ U, zis i = zis' i)
    {f : Point → RawPixel width.bytes} {zs : Fin 4 → Z.Inflate} {st st' : ReadState κ}
    (h : tightDecodeBody pf filters Z zis r frame comp_ctl st = .ok ((f, zs), st')) :
    (∀ i ∉ U, zs i = zis i) ∧ ∃ zs',
      tightDecodeBody pf filters Z zis' r frame comp_ctl st = .ok ((f, zs'), st') ∧
        ∀ i ∈ U, zs i = zs' i := by
  unfold tightDecodeBody at h ⊢
  by_cases hfill : comp_ctl = tightFill
  · rw [if_pos hfill] at h ⊢
    obtain ⟨pix, hpix, hpure⟩ := of_bind_ok h
    cases hpure
    exact ⟨fun i _ => rfl, zis', bind_ok hpix _, hagree⟩
  by_cases hjpeg : comp_ctl = tightJpeg
  · rw [if_neg hfill, if_pos hjpeg] at h ⊢
    obtain ⟨len, hlen, h⟩ := of_bind_ok h
    obtain ⟨image, himage, hpure⟩ := of_bind_ok h
    cases hpure
    exact ⟨fun i _ => rfl, zis', (bind_ok hlen _).trans (bind_ok himage _), hagree⟩
  rw [if_neg hfill, if_neg hjpeg] at h ⊢
  by_cases hmax : comp_ctl > tightMaxSubencoding
  · rw [if_pos hmax] at h
    cases h
  rw [if_neg hmax] at h ⊢
  obtain ⟨⟨filter, st₁⟩, hfilter, h⟩ := of_bind_ok h
  obtain ⟨⟨data, st₂⟩, hdata, h⟩ := of_bind_ok h
  have hmem := hU hfill hjpeg
  have hdata' := hdata
  rw [hagree _ hmem] at hdata'
  dsimp only at h
  cases himage : tightDecodePixels pf filters filter.1 filter.2 r.cols r.rows data.1 with
  | error msg =>
    rw [himage] at h
    cases h
  | ok image =>
    rw [himage] at h
    cases h
    refine ⟨fun i hi => Function.update_of_ne ?_ _ _,
      Function.update zis' (Fin.ofNat 4 (comp_ctl &&& 0x03).toNat) data.2, ?_, fun i hi => ?_⟩
    · rintro rfl
      exact hi hmem
    · refine (bind_ok hfilter _).trans ((bind_ok hdata' _).trans ?_)
      dsimp only
      rw [himage]
      rfl
    · by_cases hs : i = Fin.ofNat 4 (comp_ctl &&& 0x03).toNat
      · rw [hs, Function.update_self, Function.update_self]
      · rw [Function.update_of_ne hs, Function.update_of_ne hs]
        exact hagree i hi
theorem tightDecodeRect_streams {bytes : List Byte} (hcontrol : bytes.headD 0 >>> 4 ≤ tightJpeg)
    (zis' : Fin 4 → Z.Inflate) (hagree : ∀ i ∈ tightStreams (bytes.headD 0), zis i = zis' i)
    {calls : List κ} {f : Point → RawPixel width.bytes} {zs : Fin 4 → Z.Inflate}
    {st : ReadState κ}
    (h : tightDecodeRect pf filters Z zis r frame ⟨bytes, calls⟩ = .ok ((f, zs), st)) :
    (∀ i ∉ tightStreams (bytes.headD 0), zs i = zis i) ∧ ∃ zs',
      tightDecodeRect pf filters Z zis' r frame ⟨bytes, calls⟩ = .ok ((f, zs'), st) ∧
        ∀ i ∈ tightStreams (bytes.headD 0), zs i = zs' i := by
  rw [tightDecodeRect_eq] at h ⊢
  cases bytes with
  | nil => cases h
  | cons byte rest =>
    obtain ⟨hout, zs', hzs', hin⟩ := tightDecodeBody_streams (tightReset Z zis' byte)
      (tightStreamBits_of_data byte hcontrol)
      (fun i hi => by rw [tightReset, hagree i hi, tightReset]) h
    exact ⟨fun i hi => (hout i hi).trans (tightReset_of_notMem hi), zs', hzs', hin⟩

end Tight

/-! ## Cells -/

inductive ZlibStream
  | zrle
  | tight (i : Fin 4)

/-- What the threads share. -/
inductive Cell
  | pixel (p : Point)
  | zlib (z : ZlibStream)

section Cells

variable {d : DecodeParams width}

def DecodeState.zlib (s : DecodeState d) : ZlibStream → d.Z.Inflate
  | .zrle => s.zrle
  | .tight i => s.tight i

def CellValue (d : DecodeParams width) : Cell → Type
  | .pixel _ => RawPixel width.bytes
  | .zlib _ => d.Z.Inflate

def DecodeState.get (s : DecodeState d) : ∀ c, CellValue d c
  | .pixel p => s.frame p
  | .zlib z => s.zlib z

theorem DecodeState.get_injective : Function.Injective (DecodeState.get (d := d)) := by
  rintro ⟨frame, zrle, tight⟩ ⟨frame', zrle', tight'⟩ h
  have hframe : frame = frame' := funext fun p => congrFun h (.pixel p)
  have hzrle : zrle = zrle' := congrFun h (.zlib .zrle)
  have htight : tight = tight' := funext fun i => congrFun h (.zlib (.tight i))
  rw [hframe, hzrle, htight]

/-- The cells of some pixels and some zlib streams. -/
def cellsOf (area : Set Point) (streams : Set ZlibStream) : Set Cell
  | .pixel p => p ∈ area
  | .zlib z => z ∈ streams

variable {D : DecodeState d → Except String (DecodeState d)} {area : Set Point}
  {streams : Set ZlibStream}

/-- The decoder looks at these pixels only, and changes no others. -/
structure FrameLocal (area : Set Point) (D : DecodeState d → Except String (DecodeState d)) :
    Prop where
  outside : ∀ {s t}, D s = .ok t → ∀ p ∉ area, t.frame p = s.frame p
  inside : ∀ {s t}, D s = .ok t → ∀ f, (∀ p ∈ area, s.frame p = f p) →
    ∃ t', D { s with frame := f } = .ok t' ∧ (∀ z, t.zlib z = t'.zlib z) ∧
      ∀ p ∈ area, t.frame p = t'.frame p

/-- The decoder looks at these zlib streams only, and changes no others. -/
structure StreamLocal (streams : Set ZlibStream)
    (D : DecodeState d → Except String (DecodeState d)) : Prop where
  outside : ∀ {s t}, D s = .ok t → ∀ z ∉ streams, t.zlib z = s.zlib z
  inside : ∀ {s t}, D s = .ok t → ∀ s', s.frame = s'.frame →
    (∀ z ∈ streams, s.zlib z = s'.zlib z) →
      ∃ t', D s' = .ok t' ∧ t.frame = t'.frame ∧ ∀ z ∈ streams, t.zlib z = t'.zlib z

theorem actsOn_of_local (hframe : FrameLocal area D) (hstream : StreamLocal streams D) :
    ActsOn DecodeState.get (cellsOf area streams) fun s => (D s).toOption := by
  have hok : ∀ {s t}, (D s).toOption = some t → D s = .ok t := by
    intro s t h
    cases hs : D s with
    | error msg =>
      rw [hs] at h
      cases h
    | ok t' =>
      rw [hs] at h
      exact congrArg _ (Option.some.inj h)
  constructor
  · intro s t h c hc
    cases c with
    | pixel p => exact hframe.outside (hok h) p hc
    | zlib z => exact hstream.outside (hok h) z hc
  · intro s s' t hagree h
    -- first the streams of the other state, then its frame
    obtain ⟨t₁, ht₁, hframe₁, hzlib₁⟩ := hstream.inside (hok h)
      { s' with frame := s.frame } rfl fun z hz => hagree (.zlib z) hz
    obtain ⟨t₂, ht₂, hzlib₂, hframe₂⟩ := hframe.inside ht₁ s'.frame
      fun p hp => hagree (.pixel p) hp
    refine ⟨t₂, congrArg Except.toOption ht₂, fun c hc => ?_⟩
    cases c with
    | pixel p => exact (congrFun hframe₁ p).trans (hframe₂ p hc)
    | zlib z => exact (hzlib₁ z hc).trans (hzlib₂ z)

/-- A decoder that draws looks at no pixel. -/
theorem frameLocal_of_draws {R : Region} {D : DecodeState d → Reader Empty (DecodeState d)}
    (h : ∀ s : DecodeState d, Draws R (fun f (t : DecodeState d) => { t with frame := f })
      fun f => D { s with frame := f }) (bytes : List Byte) {area : Set Point}
    (harea : ∀ p ∈ R, p ∈ area) :
    FrameLocal area fun s => (D s ⟨bytes, []⟩).map Prod.fst := by
  constructor
  · intro s t ht p hp
    rcases h s ⟨bytes, []⟩ with ⟨msg, herr⟩ | ⟨S, hS, fresh, b, s', hok⟩
    · simp only [herr s.frame] at ht
      cases ht
    · simp only [hok s.frame] at ht
      obtain rfl := Except.ok.inj ht
      exact paint_of_notMem fun hpS => hp (harea p (hS hpS))
  · intro s t ht f hagree
    rcases h s ⟨bytes, []⟩ with ⟨msg, herr⟩ | ⟨S, hS, fresh, b, s', hok⟩
    · simp only [herr s.frame] at ht
      cases ht
    · simp only [hok s.frame] at ht
      obtain rfl := Except.ok.inj ht
      refine ⟨{ b with frame := paint S fresh f }, ?_, fun z => ?_, fun p hp => ?_⟩
      · simp only [hok f]
        rfl
      · cases z <;> rfl
      · show paint S fresh s.frame p = paint S fresh f p
        by_cases hpS : p ∈ S
        · rw [paint_of_mem hpS, paint_of_mem hpS]
        · rw [paint_of_notMem hpS, paint_of_notMem hpS]
          exact hagree p hp

/-! ## The cells of each decoder -/

/-- Success of a decoder that is followed by something that cannot fail. -/
theorem of_decode_ok {D : Reader Empty α} {g : α → DecodeState d} {bytes : List Byte}
    {t : DecodeState d}
    (h : ((D >>= fun x => Pure.pure (g x)) ⟨bytes, []⟩).map Prod.fst = .ok t) :
    ∃ res, D ⟨bytes, []⟩ = .ok res ∧ t = g res.1 := by
  obtain ⟨out, hout, rfl⟩ := of_map_ok h
  obtain ⟨res, hres, hpure⟩ := of_bind_ok hout
  obtain rfl := Except.ok.inj hpure
  exact ⟨res, hres, rfl⟩

theorem decode_ok {D : Reader Empty α} {res : α × ReadState Empty} {bytes : List Byte}
    (h : D ⟨bytes, []⟩ = .ok res) (g : α → DecodeState d) :
    ((D >>= fun x => Pure.pure (g x)) ⟨bytes, []⟩).map Prod.fst = .ok (g res.1) :=
  congrArg (Except.map Prod.fst) (bind_ok h _)

/-- Plain decoders have no stream. -/
theorem streamLocal_plain {dec : (Point → RawPixel width.bytes) →
      Reader Empty (Point → RawPixel width.bytes)} (bytes : List Byte) :
    StreamLocal ∅ fun s : DecodeState d =>
      ((dec s.frame >>= fun frame => Pure.pure { s with frame := frame }) ⟨bytes, []⟩).map
        Prod.fst := by
  constructor
  · intro s t ht z _
    obtain ⟨res, -, rfl⟩ := of_decode_ok ht
    cases z <;> rfl
  · intro s t ht s' hframe _
    obtain ⟨res, hres, rfl⟩ := of_decode_ok ht
    rw [hframe] at hres
    exact ⟨_, decode_ok hres _, rfl, fun z hz => hz.elim⟩

theorem streamLocal_zrle (r : Rect) (bytes : List Byte) :
    StreamLocal {.zrle} fun s : DecodeState d =>
      (decodeRect d r s .zrle ⟨bytes, []⟩).map Prod.fst := by
  constructor
  · intro s t ht z hz
    obtain ⟨res, -, rfl⟩ := of_decode_ok ht
    cases z with
    | zrle => exact absurd rfl hz
    | tight i => rfl
  · intro s t ht s' hframe hzlib
    obtain ⟨res, hres, rfl⟩ := of_decode_ok ht
    have hzrle : s.zrle = s'.zrle := hzlib .zrle rfl
    rw [hframe, hzrle] at hres
    refine ⟨_, decode_ok hres _, rfl, ?_⟩
    rintro z rfl
    rfl

theorem streamLocal_tight (r : Rect) {bytes : List Byte}
    (hcontrol : bytes.headD 0 >>> 4 ≤ tightJpeg) :
    StreamLocal {z | ∃ i ∈ tightStreams (bytes.headD 0), z = .tight i} fun s : DecodeState d =>
      (decodeRect d r s .tight ⟨bytes, []⟩).map Prod.fst := by
  constructor
  · intro s t ht z hz
    obtain ⟨res, hres, rfl⟩ := of_decode_ok ht
    obtain ⟨hout, -⟩ := tightDecodeRect_streams hcontrol s.tight (fun _ _ => rfl) hres
    cases z with
    | zrle => rfl
    | tight i => exact hout i fun hi => hz ⟨i, hi, rfl⟩
  · intro s t ht s' hframe hzlib
    obtain ⟨res, hres, rfl⟩ := of_decode_ok ht
    obtain ⟨-, zs', hzs', hin⟩ := tightDecodeRect_streams hcontrol s'.tight
      (fun i hi => hzlib _ ⟨i, hi, rfl⟩) hres
    rw [hframe] at hzs'
    refine ⟨_, decode_ok hzs' _, rfl, ?_⟩
    rintro z ⟨i, hi, rfl⟩
    exact hin i hi

theorem StreamLocal.mono {D : DecodeState d → Except String (DecodeState d)}
    {streams streams' : Set ZlibStream} (h : StreamLocal streams D) (hle : streams ⊆ streams') :
    StreamLocal streams' D := by
  constructor
  · exact fun ht z hz => h.outside ht z fun hmem => hz (hle hmem)
  · intro s t ht s' hframe hzlib
    obtain ⟨t', ht', hframe', hzlib'⟩ := h.inside ht s' hframe fun z hz => hzlib z (hle hz)
    refine ⟨t', ht', hframe', fun z hz => ?_⟩
    by_cases hmem : z ∈ streams
    · exact hzlib' z hmem
    · calc t.zlib z = s.zlib z := h.outside ht z hmem
        _ = s'.zlib z := hzlib z hz
        _ = t'.zlib z := (h.outside ht' z hmem).symm

theorem copyRectDecode_ok {r : Rect} {frame f : Point → RawPixel width.bytes} {bytes : List Byte}
    {st : ReadState Empty} (h : copyRectDecode d r frame ⟨bytes, []⟩ = .ok (f, st)) :
    ∃ src, copyRectSource ⟨bytes, []⟩ = .ok (src, st) ∧
      copyRect d.fbRect r (r.tl - src) frame = .ok f := by
  obtain ⟨⟨src, st'⟩, hsrc, h⟩ := of_bind_ok h
  dsimp only at h
  cases hcopy : copyRect d.fbRect r (r.tl - src) frame with
  | error e =>
    rw [hcopy] at h
    cases h
  | ok f' =>
    rw [hcopy] at h
    cases h
    exact ⟨src, hsrc, hcopy⟩

theorem copyRectDecode_of_source {r : Rect} {src : Point} {frame f : Point → RawPixel width.bytes}
    {bytes : List Byte} {st : ReadState Empty} (hsrc : copyRectSource ⟨bytes, []⟩ = .ok (src, st))
    (hcopy : copyRect d.fbRect r (r.tl - src) frame = .ok f) :
    copyRectDecode d r frame ⟨bytes, []⟩ = .ok (f, st) := by
  refine (bind_ok hsrc _).trans ?_
  dsimp only
  rw [hcopy]
  rfl

/-- A copy looks at its source and overwrites its destination. -/
theorem frameLocal_copyRect (r : Rect) (bytes : List Byte) {area : Set Point}
    (hdest : ∀ p ∈ Region.ofRect r, p ∈ area)
    (hsrc : ∀ src st, copyRectSource ⟨bytes, []⟩ = .ok (src, st) →
      ∀ p ∈ Region.ofRect (r.translate (src - r.tl)), p ∈ area) :
    FrameLocal area fun s : DecodeState d =>
      (decodeRect d r s .copyRect ⟨bytes, []⟩).map Prod.fst := by
  constructor
  · intro s t ht p hp
    obtain ⟨⟨f, st⟩, hres, rfl⟩ := of_decode_ok ht
    obtain ⟨src, -, hcopy⟩ := copyRectDecode_ok hres
    obtain rfl := copyRect_eq hcopy
    show s.frame (Move.origin _ p) = s.frame p
    rw [Move.origin_of_notMem fun hmem => hp (hdest p hmem)]
  · intro s t ht f hagree
    obtain ⟨⟨f', st⟩, hres, rfl⟩ := of_decode_ok ht
    obtain ⟨src, hread, hcopy⟩ := copyRectDecode_ok hres
    obtain ⟨hin, hin'⟩ := copyRect_enclosed hcopy
    obtain rfl := copyRect_eq hcopy
    refine ⟨_, decode_ok (copyRectDecode_of_source hread (copyRect_of_enclosed hin hin' f)) _,
      fun z => ?_, fun p hp => ?_⟩
    · cases z <;> rfl
    · show s.frame (Move.origin _ p) = f (Move.origin _ p)
      by_cases hmem : p ∈ Region.ofRect r
      · rw [Move.origin_of_mem hmem]
        refine hagree _ (hsrc src st hread _ ?_)
        have hpoint : p - (r.tl - src) = p + (src - r.tl) := by abel
        rw [hpoint]
        exact mem_ofRect_translate.mpr hmem
      · rw [Move.origin_of_notMem hmem]
        exact hagree p hp

theorem frameLocal_plain {R : Region} {dec : (Point → RawPixel width.bytes) →
      Reader Empty (Point → RawPixel width.bytes)} (h : Draws R frameOnly dec)
    (bytes : List Byte) {area : Set Point} (harea : ∀ p ∈ R, p ∈ area) :
    FrameLocal area fun s : DecodeState d =>
      ((dec s.frame >>= fun frame => Pure.pure { s with frame := frame }) ⟨bytes, []⟩).map
        Prod.fst :=
  frameLocal_of_draws
    (fun s => h.repack (g := fun frame => { s with frame := frame }) (c := fun _ => s)
      fun _ _ => rfl) bytes harea

theorem frameLocal_zrle (r : Rect) (bytes : List Byte) {area : Set Point}
    (harea : ∀ p ∈ Region.ofRect r, p ∈ area) :
    FrameLocal area fun s : DecodeState d =>
      (decodeRect d r s .zrle ⟨bytes, []⟩).map Prod.fst :=
  frameLocal_of_draws (D := fun s => decodeRect d r s .zrle)
    (fun s => (zrleDecode_draws (zrleReadPixel d.pf) d.Z s.zrle r).repack
      (g := fun res => { s with frame := res.1, zrle := res.2 })
      (c := fun zis => { s with zrle := zis }) fun _ _ => rfl) bytes harea

theorem frameLocal_tight (r : Rect) (bytes : List Byte) {area : Set Point}
    (harea : ∀ p ∈ Region.ofRect r, p ∈ area) :
    FrameLocal area fun s : DecodeState d =>
      (decodeRect d r s .tight ⟨bytes, []⟩).map Prod.fst :=
  frameLocal_of_draws (D := fun s => decodeRect d r s .tight)
    (fun s => (tightDecodeRect_draws d.pf d.filters d.Z s.tight r).repack
      (g := fun res => { s with frame := res.1, tight := res.2 })
      (c := fun zis => { s with tight := zis }) fun _ _ => rfl) bytes harea

end Cells

/-! ## The cells of an entry -/

namespace QueueEntry

variable {d : DecodeParams width}

variable (e : QueueEntry)

def pixels : Set Point := {p | ∃ r ∈ e.areas, p ∈ Region.ofRect r}

/-- The streams of the decoder of an entry, of which Tight uses some. -/
def zlibStreams : Set ZlibStream
  | .zrle => e.encoding = .zrle
  | .tight i => e.encoding = .tight ∧ i ∈ tightStreams (e.bufferStream.headD 0)

def cells : Set Cell := cellsOf e.pixels e.zlibStreams

variable {e}

theorem rect_mem_areas : e.rect ∈ e.areas := by
  unfold areas
  split
  · split <;> exact List.mem_cons_self
  · exact List.mem_cons_self

theorem source_mem_areas (he : e.encoding = .copyRect) {src : Point} {st : ReadState Empty}
    (h : copyRectSource ⟨e.bufferStream, []⟩ = .ok (src, st)) :
    e.rect.translate (src - e.rect.tl) ∈ e.areas := by
  rw [areas, if_pos he, h]
  exact List.mem_cons_of_mem _ List.mem_cons_self

theorem mem_pixels_of_rect {p : Point} (hp : p ∈ Region.ofRect e.rect) : p ∈ e.pixels :=
  ⟨e.rect, rect_mem_areas, hp⟩

variable (d) in
/-- An entry touches its own cells only. -/
theorem actsOn_decode (e : QueueEntry)
    (hcontrol : e.encoding = .tight → e.bufferStream.headD 0 >>> 4 ≤ tightJpeg) :
    ActsOn DecodeState.get e.cells fun s => (e.decode d s).toOption := by
  have harea : ∀ p ∈ Region.ofRect e.rect, p ∈ e.pixels := fun p => mem_pixels_of_rect
  have hsrc : e.encoding = .copyRect → ∀ src st,
      copyRectSource ⟨e.bufferStream, []⟩ = .ok (src, st) →
        ∀ p ∈ Region.ofRect (e.rect.translate (src - e.rect.tl)), p ∈ e.pixels :=
    fun he src st h p hp => ⟨_, source_mem_areas he h, hp⟩
  obtain ⟨phase, rect, encoding, bytes⟩ := e
  cases encoding with
  | raw =>
    exact actsOn_of_local (frameLocal_plain (rawDecode_draws rect) bytes harea)
      ((streamLocal_plain bytes).mono (Set.empty_subset _))
  | copyRect =>
    exact actsOn_of_local (frameLocal_copyRect rect bytes harea (hsrc rfl))
      ((streamLocal_plain bytes).mono (Set.empty_subset _))
  | rre =>
    exact actsOn_of_local (frameLocal_plain (rreDecode_draws rect) bytes harea)
      ((streamLocal_plain bytes).mono (Set.empty_subset _))
  | hextile =>
    exact actsOn_of_local (frameLocal_plain (hextileDecode_draws rect) bytes harea)
      ((streamLocal_plain bytes).mono (Set.empty_subset _))
  | zrle =>
    refine actsOn_of_local (frameLocal_zrle rect bytes harea)
      ((streamLocal_zrle rect bytes).mono ?_)
    rintro z rfl
    rfl
  | tight =>
    refine actsOn_of_local (frameLocal_tight rect bytes harea)
      ((streamLocal_tight rect (hcontrol rfl)).mono ?_)
    rintro z ⟨i, hi, rfl⟩
    exact ⟨rfl, hi⟩

end QueueEntry

end KasmVNC.Rfb
