import KasmVNC.Lib.Raster
import KasmVNC.Rfb.TightPayload

/-!
# Images of other pixels in the shared cache

The cache files an image under its class and its rectangle. What was compressed also
depends on the buffer `writeRects` was called with, on the scaling of that client, and on
what was drawn since the cache was emptied. So we write down, next to the cache, what every
tile of the frame was compressed from, and follow the server from one update to the next:
as long as no rectangle comes back under the same class with another origin, what a client
takes from the cache is an image of the pixels it would have compressed itself.
-/

namespace KasmVNC.Rfb

open KasmVNC.Lib EncoderClass EncoderType

variable {V Q : Type}

/-! ## Pixels -/

/-- A pixel buffer, as its `getBuffer` shows it. -/
structure BufferView (V : Type) where
  width : ℕ
  height : ℕ
  pixel : Point → V

/-- The pixels an encoder is handed. -/
structure PixelBlock (V : Type) where
  width : ℕ
  height : ℕ
  pixels : List V
deriving DecidableEq

/-- `preparePixelBuffer`. The image codecs take the format of the server, so nothing is
converted for them. -/
def BufferView.preparePixelBuffer (pb : BufferView V) (r : Rect) : PixelBlock V where
  width := r.width.toNat
  height := r.height.toNat
  pixels := raster r.width.toNat r.height.toNat fun x y => pb.pixel (r.tl.1 + x, r.tl.2 + y)

/-- The settings of a client's scaled copy. -/
structure VideoScaling where
  maxVideoX : ℕ
  maxVideoY : ℕ
  videoScaling : ℕ
deriving DecidableEq

/-- The buffer that a tile is compressed from. -/
inductive PixelSource
  | pb
  | renderedCursor
  | scaledpb (s : VideoScaling)
deriving DecidableEq

/-- The codecs and the scaling. -/
structure Imaging (V Q : Type) where
  /-- `compressOnly` of a codec, for a quality and a block. -/
  compressOnly : Codec → Q → PixelBlock V → List UInt8
  /-- What lies under `scaledrect` in `scaledpb`, for a tile of the buffer. -/
  scaled : VideoScaling → BufferView V → Rect → PixelBlock V

/-- What the server shows: the framebuffer it hands to its clients, and the cursor drawn
over it. -/
structure Display (V : Type) where
  pb : BufferView V
  renderedCursor : BufferView V

/-- What an image shows: where its pixels come from, and the pixels. -/
structure Origin (V : Type) where
  source : PixelSource
  rect : Rect
  block : PixelBlock V
deriving DecidableEq

/-- What a tile shows if it is compressed now. -/
def Display.origin (im : Imaging V Q) (d : Display V) (source : PixelSource) (r : Rect) :
    Origin V where
  source := source
  rect := r
  block := match source with
    | .pb => d.pb.preparePixelBuffer r
    | .renderedCursor => d.renderedCursor.preparePixelBuffer r
    | .scaledpb scaling => im.scaled scaling d.pb r

/-- The class an image was filed under, and what it shows. -/
structure Filing (V : Type) where
  klass : EncoderClass
  origin : Origin V

/-- The bytes are an image of what was filed. -/
def Filing.IsImage (im : Imaging V Q) (f : Filing V) (data : List CodedByte) : Prop :=
  ∃ codec q, f.klass.codec = some codec ∧
    data = (im.compressOnly codec q f.origin.block).map fun b => (codec, b)

/-- The cache has one key for the two. -/
def Rect.sameKey (r s : Rect) : Prop :=
  (EncId.ofRect encoderRaw r 0).equivalent (EncId.ofRect encoderRaw s 0) = true

instance (r s : Rect) : Decidable (r.sameKey s) := inferInstanceAs (Decidable (_ = true))

/-- Every entry is an image of something that was filed under its key. -/
def EncCache.Filed (im : Imaging V Q) (seen : List (Filing V)) (c : EncCache) : Prop :=
  ∀ e ∈ c.cache, ∃ f ∈ seen,
    e.1.equivalent (EncId.ofRect f.klass f.origin.rect 0) = true ∧ f.IsImage im e.2

/-! ## One call of `writeRects` -/

instance (p : EncodePass) (active : ActiveEncoders) : Decidable (p.GivesUp active) :=
  inferInstanceAs (Decidable (_ ∧ _ ∧ ∃ i < p.tiles.length, _))

/-- The classes under which fresh images go into the cache. -/
def EncodePass.filedAs (p : EncodePass) (active : ActiveEncoders) : List EncoderClass :=
  if encoderTightQOI.isSupported p.params then []
  else match active.fullColour with
    | encoderTightJPEG => [encoderTightJPEG]
    | encoderTightWEBP =>
      if p.GivesUp active then [encoderTightWEBP, encoderTightJPEG] else [encoderTightWEBP]
    | _ => []

/-- A call of `writeRects`, with what it meets and what was filed before it. -/
structure Call (V : Type) where
  pass : EncodePass
  active : ActiveEncoders
  encCache : EncCache
  seen : List (Filing V)
  /-- What a tile of the call shows. -/
  origin : Rect → Origin V

namespace Call

/-- A tile of many colours, which is looked up in the cache. -/
def Asks (k : Call V) (t : Tile) : Prop :=
  k.pass.videoModeAvailable = false ∧ k.pass.tileType k.active t = encoderFullColour

instance (k : Call V) (t : Tile) : Decidable (k.Asks t) :=
  inferInstanceAs (Decidable (_ ∧ _))

/-- What the call files, and what was filed before it. -/
def seenAfter (k : Call V) : List (Filing V) :=
  if k.encCache.enabled then
    (k.pass.tiles.filter (k.Asks ·)).flatMap
      (fun t => (k.pass.filedAs k.active).map fun klass => ⟨klass, k.origin t.rect⟩) ++ k.seen
  else k.seen

/-- No tile was filed before, under the class it is looked for, with another origin. -/
def SameOrigin (k : Call V) : Prop :=
  ∀ t ∈ k.pass.tiles, k.Asks t → t.reached = true → ∀ f ∈ k.seen,
    f.klass = k.active.fullColour → f.origin.rect.sameKey t.rect → f.origin = k.origin t.rect

instance [DecidableEq V] (k : Call V) : Decidable k.SameOrigin :=
  inferInstanceAs (Decidable (∀ t ∈ _, _ → _ → ∀ f ∈ _, _ → _ → _))

/-- What `getEncoderType` takes from the cache was compressed from what the tile shows. -/
def TakesOwn (im : Imaging V Q) (k : Call V) : Prop :=
  ∀ i t, k.pass.tiles[i]? = some t →
    ((k.pass.encodeTiles k.active k.encCache).encoded i).fromCache = true →
      ∃ e ∈ k.encCache.cache,
        ((k.pass.encodeTiles k.active k.encCache).encoded i).compressed =
            e.2.take e.1.len ∧
          ⟨k.active.fullColour, k.origin t.rect⟩ ∈ k.seen ∧
          Filing.IsImage im ⟨k.active.fullColour, k.origin t.rect⟩ e.2

/-- The tiles are compressed from what they show. -/
def Reads (im : Imaging V Q) (k : Call V) : Prop :=
  ∀ t ∈ k.pass.tiles, ∃ q, ∀ codec,
    t.compressOnly codec = im.compressOnly codec q (k.origin t.rect).block

end Call

/-! ### What the cache gives and what it is given -/

theorem EncId.equivalent_iff {a b : EncId} :
    a.equivalent b = true ↔ a.type = b.type ∧ a.x = b.x ∧ a.y = b.y ∧ a.w = b.w ∧ a.h = b.h := by
  simp only [EncId.equivalent, Bool.and_eq_true, decide_eq_true_eq, and_assoc]

theorem EncId.equivalent_trans {a b c : EncId} (hab : a.equivalent b = true)
    (hbc : b.equivalent c = true) : a.equivalent c = true := by
  rw [EncId.equivalent_iff] at hab hbc ⊢
  obtain ⟨htype, hx, hy, hw, hh⟩ := hab
  exact ⟨htype.trans hbc.1, hx.trans hbc.2.1, hy.trans hbc.2.2.1, hw.trans hbc.2.2.2.1,
    hh.trans hbc.2.2.2.2⟩

/-- Two rectangles that one key is equivalent to, under classes that must be the same. -/
theorem EncId.sameKey_of_equivalent {e : EncId} {k l : EncoderClass} {r s : Rect} {m n : ℕ}
    (hr : e.equivalent (EncId.ofRect k r m) = true)
    (hs : e.equivalent (EncId.ofRect l s n) = true) : k = l ∧ r.sameKey s := by
  rw [EncId.equivalent_iff] at hr hs
  obtain ⟨hk, hx, hy, hw, hh⟩ := hr
  obtain ⟨hl, hx', hy', hw', hh'⟩ := hs
  exact ⟨hk.symm.trans hl, EncId.equivalent_iff.mpr
    ⟨rfl, hx.symm.trans hx', hy.symm.trans hy', hw.symm.trans hw', hh.symm.trans hh'⟩⟩

namespace EncCache

variable {im : Imaging V Q} {c : EncCache} {seen : List (Filing V)}

theorem Filed.mono {seen' : List (Filing V)} (h : c.Filed im seen) (hsub : seen ⊆ seen') :
    c.Filed im seen' := by
  intro e he
  obtain ⟨f, hf, hkey, himage⟩ := h e he
  exact ⟨f, hsub hf, hkey, himage⟩

theorem Filed.add (h : c.Filed im seen) {f : Filing V} (hf : f ∈ seen) {data : List CodedByte}
    (hdata : f.IsImage im data) (len : ℕ) :
    (c.add (EncId.ofRect f.klass f.origin.rect len) data).Filed im seen := by
  intro e he
  unfold EncCache.add at he
  split at he
  · -- the key that is there already stays, and gets the new bytes
    obtain ⟨d, hd, rfl⟩ := List.mem_map.mp he
    by_cases heq : d.1.equivalent (EncId.ofRect f.klass f.origin.rect len) = true
    · rw [if_pos heq]
      exact ⟨f, hf, EncId.equivalent_trans heq (EncId.equivalent_iff.mpr ⟨rfl, rfl, rfl, rfl, rfl⟩),
        hdata⟩
    · rw [if_neg heq]
      exact h d hd
  · rcases List.mem_cons.mp he with rfl | he
    · exact ⟨f, hf, EncId.equivalent_iff.mpr ⟨rfl, rfl, rfl, rfl, rfl⟩, hdata⟩
    · exact h e he

/-- What is found under a key was filed under it. -/
theorem Filed.get (h : c.Filed im seen) {klass : EncoderClass} {r : Rect} {len : ℕ}
    {got : List CodedByte × ℕ} (hget : c.get (EncId.ofRect klass r len) = some got) :
    ∃ e ∈ c.cache, got.1 = e.2.take e.1.len ∧
      ∃ f ∈ seen, f.klass = klass ∧ f.origin.rect.sameKey r ∧ f.IsImage im e.2 := by
  obtain ⟨e, hfind, rfl⟩ := Option.map_eq_some_iff.mp hget
  obtain ⟨f, hf, hkey, himage⟩ := h e (List.mem_of_find?_eq_some hfind)
  have hfound : e.1.equivalent (EncId.ofRect klass r len) = true :=
    List.find?_some (p := fun d : EncId × List CodedByte =>
      d.1.equivalent (EncId.ofRect klass r len)) hfind
  obtain ⟨hklass, hrect⟩ := EncId.sameKey_of_equivalent hkey hfound
  exact ⟨e, List.mem_of_find?_eq_some hfind, rfl, f, hf, hklass, hrect, himage⟩

@[simp] theorem add_enabled (id : EncId) (data : List CodedByte) :
    (c.add id data).enabled = c.enabled := by
  unfold EncCache.add
  split <;> rfl

end EncCache

namespace EncodePass

variable {p : EncodePass} {active : ActiveEncoders} {c : EncCache}

@[simp] theorem addToCache_enabled (e : Encoded) (t : Tile) :
    (p.addToCache e t c).enabled = c.enabled := by
  unfold addToCache
  split
  · exact EncCache.add_enabled _ _
  · rfl

/-- Only a tile of many colours is compressed in the first phase. -/
theorem asks_of_compressed {tooLong : Bool} {t : Tile}
    (h : (p.getEncoderType active c tooLong t).compressed ≠ []) :
    p.videoModeAvailable = false ∧ p.tileType active t = encoderFullColour := by
  unfold getEncoderType at h
  by_cases hfull : p.tileType active t = encoderFullColour
  · refine ⟨Bool.eq_false_iff.mpr fun hvideo => ?_, hfull⟩
    rw [if_pos hfull] at h
    unfold encodeFullColour at h
    rw [if_pos hvideo] at h
    exact h rfl
  · rw [if_neg hfull] at h
    exact absurd rfl h

/-- A fresh image that goes into the cache: its class, and the codec that made it. -/
theorem fresh_source {tooLong : Bool} {t : Tile} {e : Encoded} (hp : p.Consistent active)
    (hsource : Source p active c tooLong t e) (hgives : tooLong = true → p.GivesUp active)
    (hsize : e.size ≠ 0) (hfresh : e.fromCache = false)
    (hqoi : encoderTightQOI.isSupported p.params = false) :
    (if e.isWebp then encoderTightWEBP else encoderTightJPEG) ∈ p.filedAs active ∧
      ∃ codec, (if e.isWebp then encoderTightWEBP else encoderTightJPEG).codec = some codec ∧
        e.compressed = compress codec t := by
  unfold filedAs
  rw [hqoi, if_neg Bool.false_ne_true]
  cases hsource with
  | uncompressed => exact absurd rfl hsize
  | cached => cases hfresh
  | webp hactive =>
    refine ⟨?_, .webp, rfl, rfl⟩
    rw [hactive]
    dsimp only
    split <;> exact List.mem_cons_self
  | qoi hactive => cases (hp hactive).symm.trans hqoi
  | jpeg hactive =>
    refine ⟨?_, .jpeg, rfl, rfl⟩
    rcases hactive with hjpeg | htoo
    · rw [hjpeg]
      exact List.mem_cons_self
    · have hg := hgives htoo
      rw [hg.2.1]
      dsimp only
      rw [if_pos hg]
      exact List.mem_cons_of_mem _ List.mem_cons_self

end EncodePass

/-! ### A call keeps the cache filed, and takes its own pixels -/

namespace Call

variable {im : Imaging V Q} {k : Call V}

theorem encodeTiles_encoded (k : Call V) {i : ℕ} {t : Tile} (ht : k.pass.tiles[i]? = some t) :
    ∃ tooLong : Bool, (tooLong = true → k.pass.GivesUp k.active) ∧
      (k.pass.encodeTiles k.active k.encCache).encoded i =
        k.pass.getEncoderType k.active k.encCache tooLong t := by
  obtain ⟨tooLong, hflag, hencoded⟩ := EncodePass.encodeTiles_encoded ht
  exact ⟨tooLong, fun h => EncodePass.encodeTiles_tooLong.mp (hflag h), hencoded⟩

/-- **Taking from the cache.** A tile that comes from the cache has there an image of what
it shows. -/
theorem takesOwn_of_sameOrigin (hfiled : k.encCache.Filed im k.seen) (hsame : k.SameOrigin) :
    k.TakesOwn im := by
  intro i t ht hhit
  obtain ⟨tooLong, -, hencoded⟩ := k.encodeTiles_encoded ht
  rw [hencoded] at hhit ⊢
  have hsource : EncodePass.Source k.pass k.active k.encCache tooLong t _ :=
    EncodePass.source_getEncoderType tooLong t
  generalize k.pass.getEncoderType k.active k.encCache tooLong t = e at hhit hsource
  cases hsource with
  | uncompressed => cases hhit
  | webp => cases hhit
  | qoi => cases hhit
  | jpeg => cases hhit
  | cached data behind hfull hvideo hdata =>
    unfold EncodePass.cached at hdata
    split at hdata
    · next hsearched =>
        rw [Bool.and_eq_true] at hsearched
        obtain ⟨e, he, htake, f, hf, hklass, hkey, himage⟩ := hfiled.get hdata
        have horigin : f.origin = k.origin t.rect :=
          hsame t (List.mem_of_getElem? ht) ⟨hvideo, hfull⟩ hsearched.2 f hf hklass hkey
        have hthis : f = ⟨k.active.fullColour, k.origin t.rect⟩ := by
          rw [← hklass, ← horigin]
        exact ⟨e, he, htake, hthis ▸ hf, hthis ▸ himage⟩
    · cases hdata

theorem mem_seenAfter {t : Tile} (ht : t ∈ k.pass.tiles) (hasks : k.Asks t)
    (henabled : k.encCache.enabled = true) {klass : EncoderClass}
    (hklass : klass ∈ k.pass.filedAs k.active) :
    ⟨klass, k.origin t.rect⟩ ∈ k.seenAfter := by
  unfold seenAfter
  rw [if_pos henabled]
  apply List.mem_append_left
  refine List.mem_flatMap.mpr ⟨t, ?_, List.mem_map.mpr ⟨klass, hklass, rfl⟩⟩
  exact List.mem_filter.mpr ⟨ht, decide_eq_true hasks⟩

theorem seen_subset_seenAfter : k.seen ⊆ k.seenAfter := by
  unfold seenAfter
  split
  · exact List.subset_append_right _ _
  · exact fun _ h => h

/-- Offering one tile to the other clients. -/
theorem filed_addToCache (hreads : k.Reads im) (horigin : ∀ r, (k.origin r).rect = r)
    (hp : k.pass.Consistent k.active) {c : EncCache} (henabled : c.enabled = k.encCache.enabled)
    (hc : c.Filed im k.seenAfter) {t : Tile} (ht : t ∈ k.pass.tiles) {tooLong : Bool}
    (hgives : tooLong = true → k.pass.GivesUp k.active) :
    (k.pass.addToCache (k.pass.getEncoderType k.active k.encCache tooLong t) t c).Filed im
      k.seenAfter := by
  have hsource : EncodePass.Source k.pass k.active k.encCache tooLong t _ :=
    EncodePass.source_getEncoderType tooLong t
  have hasks : (k.pass.getEncoderType k.active k.encCache tooLong t).compressed ≠ [] →
      k.Asks t := EncodePass.asks_of_compressed
  generalize k.pass.getEncoderType k.active k.encCache tooLong t = e at hsource hasks ⊢
  unfold EncodePass.addToCache
  split
  · next hadd =>
      simp only [Bool.and_eq_true, decide_eq_true_eq, Bool.not_eq_true'] at hadd
      obtain ⟨⟨⟨hon, hsize⟩, hfresh⟩, hqoi⟩ := hadd
      obtain ⟨hklass, codec, hcodec, hdata⟩ :=
        EncodePass.fresh_source hp hsource hgives hsize hfresh hqoi
      have hne : e.compressed ≠ [] := fun hnil => hsize <| by
        rw [hsource.size hfresh, hnil, List.length_nil]
      obtain ⟨q, hq⟩ := hreads t ht
      have hmem := mem_seenAfter ht (hasks hne) (henabled.symm.trans hon) hklass
      have himage : Filing.IsImage im
          ⟨if e.isWebp then encoderTightWEBP else encoderTightJPEG, k.origin t.rect⟩
          e.compressed := by
        refine ⟨codec, q, hcodec, ?_⟩
        rw [hdata, ← hq codec]
        rfl
      have hadded := hc.add hmem himage e.size
      dsimp only at hadded
      rw [horigin] at hadded
      exact hadded
  · exact hc

/-- The loop that writes the tiles keeps the cache filed. -/
theorem filed_writeTiles (hreads : k.Reads im) (horigin : ∀ r, (k.origin r).rect = r)
    (hp : k.pass.Consistent k.active) (active' : ActiveEncoders) :
    ∀ (tiles : List (Encoded × Tile)) (c : EncCache),
      (∀ et ∈ tiles, et.2 ∈ k.pass.tiles ∧ ∃ tooLong : Bool,
        (tooLong = true → k.pass.GivesUp k.active) ∧
          k.pass.getEncoderType k.active k.encCache tooLong et.2 = et.1) →
      c.enabled = k.encCache.enabled → c.Filed im k.seenAfter →
        (k.pass.writeTiles active' tiles c).1.Filed im k.seenAfter
  | [], c, _, _, hc => hc
  | (e, t) :: rest, c, hsources, henabled, hc => by
    obtain ⟨ht, tooLong, hgives, he⟩ := hsources (e, t) List.mem_cons_self
    refine filed_writeTiles hreads horigin hp active' rest (k.pass.addToCache e t c)
      (fun et het => hsources et (List.mem_cons_of_mem _ het))
      ((EncodePass.addToCache_enabled e t).trans henabled) ?_
    have hadded := filed_addToCache hreads horigin hp henabled hc ht hgives
    rw [he] at hadded
    exact hadded

/-- **One call of `writeRects`** keeps the cache filed. -/
theorem filed_writeRects (hfiled : k.encCache.Filed im k.seen) (hreads : k.Reads im)
    (horigin : ∀ r, (k.origin r).rect = r) (hp : k.pass.Consistent k.active) :
    (k.pass.writeRects k.active k.encCache).2.1.Filed im k.seenAfter := by
  refine filed_writeTiles hreads horigin hp _ _ k.encCache ?_ rfl
    (hfiled.mono seen_subset_seenAfter)
  intro et het
  obtain ⟨i, ht, he⟩ := EncodePass.mem_encoded.mp het
  obtain ⟨tooLong, hgives, hencoded⟩ := k.encodeTiles_encoded ht
  exact ⟨List.mem_of_getElem? ht, tooLong, hgives, hencoded.symm.trans he⟩

end Call

/-! ## Updates -/

/-- An entry of `subrects` before its pixels are read. -/
structure TileInput (Q : Type) where
  rect : Rect
  analyse : ℕ → ℕ × ℤ
  reached : Bool := true
  /-- `scaledQuality(rect)` and `videoDetected` -/
  quality : Q
  image : Codec → List UInt8 := fun _ => []

def TileInput.tile (im : Imaging V Q) (origin : Rect → Origin V) (t : TileInput Q) : Tile where
  rect := t.rect
  analyse := t.analyse
  reached := t.reached
  compressOnly := fun codec => im.compressOnly codec t.quality (origin t.rect).block
  image := t.image

/-- A schedule for the tiles that a list of inputs gives. -/
def Schedule.forTiles {n : ℕ} (sched : Schedule n) {tiles : List Tile} (h : tiles.length = n) :
    Schedule tiles.length :=
  ⟨sched.steps, fun i hi => sched.complete i (h ▸ hi), fun i hi => h ▸ sched.bounded i hi,
    sched.once⟩

/-- One `doUpdate` of a client, before it looks at the screen. -/
structure ClientUpdate (Q : Type) where
  params : EncoderParams
  allowLossy : Bool
  /-- The changed pixels were sent as video frames. -/
  videoMode : Bool
  videoModeAvailable : Bool
  videoDetected : Bool
  scaling : VideoScaling
  solid : List Tile
  tiles : List (TileInput Q)
  schedule : Schedule tiles.length
  /-- The part of the changed region that lies under a rendered cursor. -/
  cursorTiles : List (TileInput Q)
  cursorSchedule : Schedule cursorTiles.length
  webpFallbackUs : ℕ
  elapsedUs : ℕ → ℕ

theorem length_tiles (im : Imaging V Q) (origin : Rect → Origin V) (l : List (TileInput Q)) :
    (l.map (TileInput.tile im origin)).length = l.length := List.length_map _

namespace ClientUpdate

variable (im : Imaging V Q) (u : ClientUpdate Q) (d : Display V) (c : EncCache)
  (seen : List (Filing V))

/-- The current resolution is above the largest of the client's video resolutions. -/
def scales : Bool :=
  u.videoDetected && !u.videoModeAvailable &&
    (u.scaling.maxVideoX < d.pb.width || u.scaling.maxVideoY < d.pb.height)

def mainOrigin : Rect → Origin V :=
  d.origin im (if u.scales d then .scaledpb u.scaling else .pb)

/-- `writeRects(changed, pb, &start, true)` -/
def mainPass : EncodePass where
  params := u.params
  videoModeAvailable := u.videoModeAvailable
  scaled := u.scales d
  tiles := u.tiles.map (TileInput.tile im (u.mainOrigin im d))
  schedule := u.schedule.forTiles (length_tiles im (u.mainOrigin im d) u.tiles)
  start := true
  webpFallbackUs := u.webpFallbackUs
  elapsedUs := u.elapsedUs

/-- `writeRects(cursorRegion, renderedCursor)` -/
def cursorPass : EncodePass where
  params := u.params
  videoModeAvailable := u.videoModeAvailable
  scaled := false
  tiles := u.cursorTiles.map (TileInput.tile im (d.origin im .renderedCursor))
  schedule := u.cursorSchedule.forTiles
    (length_tiles im (d.origin im .renderedCursor) u.cursorTiles)
  start := false
  webpFallbackUs := u.webpFallbackUs
  elapsedUs := u.elapsedUs

theorem cursor_untimed (q : EncodePass)
    (hq : (if u.videoDetected then none else some (u.cursorPass im d)) = some q) :
    q.start = false ∧ q.params = (u.mainPass im d).params := by
  split at hq
  · cases hq
  · cases hq
    exact ⟨rfl, rfl⟩

/-- The update, with the pixels that are on the screen now. -/
def update : TileUpdate where
  allowLossy := u.allowLossy
  videoMode := u.videoMode
  solid := u.solid
  main := u.mainPass im d
  cursor := if u.videoDetected then none else some (u.cursorPass im d)
  cursorUntimed := cursor_untimed im u d

def mainCall : Call V where
  pass := u.mainPass im d
  active := u.params.prepareEncoders u.allowLossy
  encCache := c
  seen := seen
  origin := u.mainOrigin im d

/-- The cursor is written with the encoders, the cache and the filings that the main screen
leaves. -/
def cursorCall : Call V :=
  let main := u.mainCall im d c seen
  { pass := u.cursorPass im d
    active := (main.pass.writeRects main.active main.encCache).1
    encCache := (main.pass.writeRects main.active main.encCache).2.1
    seen := main.seenAfter
    origin := d.origin im .renderedCursor }

/-- The calls of `writeRects` that the update makes. -/
def calls : List (Call V) :=
  if u.videoMode then []
  else u.mainCall im d c seen :: if u.videoDetected then [] else [u.cursorCall im d c seen]

/-- What was filed by the end of the update. -/
def seenAfter : List (Filing V) :=
  if u.videoMode then seen
  else if u.videoDetected then (u.mainCall im d c seen).seenAfter
  else (u.cursorCall im d c seen).seenAfter

end ClientUpdate

/-! ## The server -/

/-- The server with its screen, and what was filed since the cache was emptied. -/
structure CacheServer (V : Type) where
  display : Display V
  server : TileServer
  seen : List (Filing V)

/-- Something is drawn, a new frame begins, or a client is updated. -/
inductive CacheEvent (V Q : Type)
  | draw (d : Display V)
  | writeUpdate (clients : ℕ)
  | doUpdate (u : ClientUpdate Q)

def cacheStep (im : Imaging V Q) (s : CacheServer V) : CacheEvent V Q → CacheServer V
  | .draw d => { s with display := d }
  | .writeUpdate clients =>
    { s with server := tileStep s.server (.writeUpdate clients), seen := [] }
  | .doUpdate u =>
    { s with
      server := tileStep s.server (.doUpdate (u.update im s.display))
      seen := u.seenAfter im s.display s.server.encCache s.seen }

def CacheServer.start (d : Display V) : CacheServer V := ⟨d, .start, []⟩

/-- No tile of the update has the key of one that was filed before in the frame, under the
class it is looked for, and shows something else. -/
def KeepsOrigins (im : Imaging V Q) (s : CacheServer V) : CacheEvent V Q → Prop
  | .draw _ => True
  | .writeUpdate _ => True
  | .doUpdate u => ∀ k ∈ u.calls im s.display s.server.encCache s.seen, k.SameOrigin

instance [DecidableEq V] (im : Imaging V Q) (s : CacheServer V) :
    ∀ e, Decidable (KeepsOrigins im s e)
  | .draw _ => .isTrue trivial
  | .writeUpdate _ => .isTrue trivial
  | .doUpdate _ => inferInstanceAs (Decidable (∀ k ∈ _, Call.SameOrigin k))

/-- Whatever the update takes from the cache was compressed from the pixels it would have
compressed itself. -/
def TakesOwnPixels (im : Imaging V Q) (s : CacheServer V) : CacheEvent V Q → Prop
  | .draw _ => True
  | .writeUpdate _ => True
  | .doUpdate u => ∀ k ∈ u.calls im s.display s.server.encCache s.seen, k.TakesOwn im

namespace ClientUpdate

variable {im : Imaging V Q} {u : ClientUpdate Q} {d : Display V} {c : EncCache}
  {seen : List (Filing V)}

theorem reads_tiles {origin : Rect → Origin V} {l : List (TileInput Q)} :
    ∀ t ∈ l.map (TileInput.tile im origin), ∃ q, ∀ codec,
      t.compressOnly codec = im.compressOnly codec q (origin t.rect).block := by
  intro t ht
  obtain ⟨input, -, rfl⟩ := List.mem_map.mp ht
  exact ⟨input.quality, fun _ => rfl⟩

theorem consistent_mainCall :
    (u.mainCall im d c seen).pass.Consistent (u.mainCall im d c seen).active :=
  EncoderParams.prepareEncoders_qoi

theorem consistent_cursorCall :
    (u.cursorCall im d c seen).pass.Consistent (u.cursorCall im d c seen).active := by
  have hmain : (u.mainCall im d c seen).pass.Consistent (u.mainCall im d c seen).active :=
    consistent_mainCall
  exact hmain.fallback _

/-- The cursor's call meets a cache that is filed, too. -/
theorem filed_mainCall (hfiled : c.Filed im seen) :
    (u.cursorCall im d c seen).encCache.Filed im (u.cursorCall im d c seen).seen :=
  Call.filed_writeRects (k := u.mainCall im d c seen) hfiled reads_tiles (fun _ => rfl)
    consistent_mainCall

/-- Every call of an update meets a filed cache. -/
theorem filed_calls (hfiled : c.Filed im seen) :
    ∀ k ∈ u.calls im d c seen, k.encCache.Filed im k.seen := by
  intro k hk
  unfold calls at hk
  split at hk
  · cases hk
  · rcases List.mem_cons.mp hk with rfl | hk
    · exact hfiled
    · split at hk
      · cases hk
      · obtain rfl := List.mem_singleton.mp hk
        exact filed_mainCall hfiled

/-- The update leaves a filed cache. -/
theorem filed_doUpdate (hfiled : c.Filed im seen) :
    ((u.update im d).doUpdate c).1.Filed im (u.seenAfter im d c seen) := by
  unfold TileUpdate.doUpdate seenAfter update
  dsimp only
  by_cases hvideo : u.videoMode = true
  · rw [if_pos hvideo, if_pos hvideo]
    exact hfiled
  · rw [if_neg hvideo, if_neg hvideo]
    by_cases hdetected : u.videoDetected = true
    · rw [if_pos hdetected, if_pos hdetected]
      exact filed_mainCall hfiled
    · rw [if_neg hdetected, if_neg hdetected]
      exact Call.filed_writeRects (k := u.cursorCall im d c seen) (filed_mainCall hfiled)
        reads_tiles (fun _ => rfl) consistent_cursorCall

end ClientUpdate

/-! ## Runs -/

section Runs

variable {im : Imaging V Q}

theorem filed_cacheStep {s : CacheServer V} (hs : s.server.encCache.Filed im s.seen)
    (e : CacheEvent V Q) :
    (cacheStep im s e).server.encCache.Filed im (cacheStep im s e).seen := by
  cases e with
  | draw d => exact hs
  | writeUpdate clients => exact fun _ he => nomatch he
  | doUpdate u => exact ClientUpdate.filed_doUpdate hs

theorem takesOwnPixels_of_keepsOrigins {s : CacheServer V}
    (hs : s.server.encCache.Filed im s.seen) {e : CacheEvent V Q} (hkeeps : KeepsOrigins im s e) :
    TakesOwnPixels im s e := by
  cases e with
  | draw d => trivial
  | writeUpdate clients => trivial
  | doUpdate u =>
    intro k hk
    exact Call.takesOwn_of_sameOrigin (ClientUpdate.filed_calls hs k hk) (hkeeps k hk)

/-- **The cache gives every client its own pixels** in a run in which no rectangle comes
back, under the same class and in the same frame, with another origin. -/
theorem cached_pixels_own (d : Display V) (events : List (CacheEvent V Q))
    (h : Guarded (cacheStep im) (KeepsOrigins im) (.start d) events) :
    Guarded (cacheStep im) (TakesOwnPixels im) (.start d) events :=
  guarded_imp (I := fun s => s.server.encCache.Filed im s.seen)
    (fun _ e hs _ => filed_cacheStep hs e)
    (fun _ _ hs hkeeps => takesOwnPixels_of_keepsOrigins hs hkeeps)
    (fun _ he => nomatch he) h

end Runs

/-! ### A cursor on the screen of another client -/

/-- A codec that writes down the first two pixels. -/
def plainImaging : Imaging ℕ Unit where
  compressOnly := fun _ _ block => (block.pixels.take 2).map UInt8.ofNat
  scaled := fun _ pb r => pb.preparePixelBuffer r

/-- A framebuffer in which no colour occurs twice, with a cursor in other colours. -/
def cursorDisplay : Display ℕ where
  pb := ⟨64, 64, fun p => 64 * p.2.toNat + p.1.toNat⟩
  renderedCursor := ⟨20, 20, fun p => 5000 + 64 * p.2.toNat + p.1.toNat⟩

/-- The changed rectangle, where the cursor is. It has too many colours for a palette. -/
def cursorTile : TileInput Unit where
  rect := ⟨(8, 8), (28, 28)⟩
  analyse := fun _ => (0, 0)
  quality := ()

/-- One thread gets through the tasks in the order of the tiles. -/
def tasksInOrder (n : ℕ) : List TaskStep :=
  (List.range n).flatMap fun i => [.encode i, .checkWebpFallback i]

theorem tasksInOrder_complete {n i : ℕ} (hi : i < n) :
    [TaskStep.encode i, .checkWebpFallback i].Sublist (tasksInOrder n) :=
  List.sublist_flatten_of_mem (List.mem_map.mpr ⟨i, List.mem_range.mpr hi, rfl⟩)

theorem mem_tasksInOrder {n i : ℕ} (h : .checkWebpFallback i ∈ tasksInOrder n) : i < n := by
  obtain ⟨k, hk, hi⟩ := List.mem_flatMap.mp h
  simp only [List.mem_cons, List.not_mem_nil, or_false, reduceCtorEq, false_or,
    TaskStep.checkWebpFallback.injEq] at hi
  exact hi ▸ List.mem_range.mp hk

theorem nodup_tasksInOrder (n : ℕ) : (tasksInOrder n).Nodup := by
  refine List.nodup_flatMap.mpr ⟨fun i _ => by simp, ?_⟩
  refine List.nodup_range.imp fun {i k} hik => ?_
  simp [Ne.symm hik]

def inOrder (n : ℕ) : Schedule n :=
  ⟨tasksInOrder n, fun _ hi => tasksInOrder_complete hi, fun _ h => mem_tasksInOrder h,
    nodup_tasksInOrder n⟩

/-- A client with JPEG that draws its own cursor. -/
def localCursorUpdate : ClientUpdate Unit where
  params :=
    { cp := { encodings := [encodingTight] }, preferred := encodingTight, bpp := 32
      qualityLevel := 8 }
  allowLossy := true
  videoMode := false
  videoModeAvailable := false
  videoDetected := false
  scaling := ⟨1920, 1080, 0⟩
  solid := []
  tiles := [cursorTile]
  schedule := inOrder 1
  cursorTiles := []
  cursorSchedule := inOrder 0
  webpFallbackUs := 5000
  elapsedUs := fun _ => 0

/-- The same for a client that has the cursor drawn by the server. -/
def renderedCursorUpdate : ClientUpdate Unit :=
  { localCursorUpdate with
    tiles := []
    schedule := inOrder 0
    cursorTiles := [cursorTile]
    cursorSchedule := inOrder 1 }

theorem cached_pixels_own_two :
    Guarded (cacheStep plainImaging) (TakesOwnPixels plainImaging) (.start cursorDisplay)
      [.writeUpdate 2, .doUpdate localCursorUpdate, .doUpdate localCursorUpdate] :=
  cached_pixels_own cursorDisplay _ (by decide +kernel)

/-- The rectangle under the cursor changes. The first client gets it with the cursor, the
second one is to get it without, and finds the first one's image. -/
theorem cursor_from_cache :
    ¬Guarded (cacheStep plainImaging) (TakesOwnPixels plainImaging) (.start cursorDisplay)
      [.writeUpdate 2, .doUpdate renderedCursorUpdate, .doUpdate localCursorUpdate] := by
  rintro ⟨-, -, htakes, -⟩
  obtain ⟨e, he, -, -, codec, q, -, hown⟩ :=
    htakes _ List.mem_cons_self 0 _ rfl (by decide)
  have hcached : ∀ e ∈ (run (cacheStep plainImaging) (.start cursorDisplay)
      [.writeUpdate 2, .doUpdate renderedCursorUpdate]).server.encCache.cache,
      e.2.map Prod.snd = [144, 145] := by
    decide
  have hframebuffer : e.2.map Prod.snd = [8, 9] := by
    rw [hown]
    rfl
  cases (hcached e he).symm.trans hframebuffer

end KasmVNC.Rfb
