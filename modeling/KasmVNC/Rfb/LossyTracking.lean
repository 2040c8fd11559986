import KasmVNC.Rfb.ScrollSound
import KasmVNC.Rfb.TightPayload

/-!
# Tracking what was sent with losses

`EncodeManager::lossyRegion` is kept by `startRect`, by the flag and the level of the encoder
object that writes a rectangle. An image has been compressed before that, at the level that
`scaledQuality` makes of how often the rectangle changes, or comes from the cache, from another
client. Copies carry what was lost along, so we follow for every pixel of the client whether its
content comes from a rectangle that was sent with losses.
-/

namespace KasmVNC.Rfb

open KasmVNC.Lib EncoderClass EncoderType

/-! ## The quality of a rectangle -/

/-- `union_boundary` -/
def Rect.unionBoundary (s r : Rect) : Rect :=
  if r.isEmpty then s
  else if s.isEmpty then r
  else ⟨(min s.tl.1 r.tl.1, min s.tl.2 r.tl.2), (max s.br.1 r.br.1, max s.br.2 r.br.2)⟩

/-- The server settings that decide the quality. -/
structure QualitySettings where
  dynamicQualityMin : ℕ
  dynamicQualityMax : ℕ
  preferBandwidth : Bool
  treatLossless : ℤ
  /-- `IntParameter::setParam` takes no more. -/
  dynamicQualityMin_le : dynamicQualityMin ≤ 9

/-- A rectangle that changes, with its score. -/
structure QualityInfo where
  rect : Rect
  score : ℕ

def closeEnough (unioned check : Rect) : Bool :=
  |unioned.tl.1 - check.tl.1| ≤ 32 && |unioned.tl.2 - check.tl.2| ≤ 32 &&
    |unioned.area - check.area| ≤ 4096

namespace QualityInfo

/-- Is this close enough to match? -/
def isMatch (cur : QualityInfo) (rect : Rect) : Bool :=
  let unioned := cur.rect.unionBoundary rect
  rect.enclosedBy cur.rect || cur.rect.enclosedBy rect || closeEnough unioned cur.rect ||
    closeEnough unioned rect

/-- The first one that matches is set to the larger rectangle, and its score is added to. -/
def trackRectQuality : List QualityInfo → Rect → List QualityInfo
  | [], rect => [⟨rect, 0⟩]
  | cur :: list, rect =>
    if cur.isMatch rect then
      ⟨if rect.area > cur.rect.area then rect else cur.rect, (cur.score + 32) % 2 ^ 32⟩ :: list
    else cur :: trackRectQuality list rect

/-- From 0 to 128, the best. -/
def getQuality (list : List QualityInfo) (rect : Rect) : ℕ :=
  match list.find? (·.isMatch rect) with
  | some cur => 128 - min cur.score 128
  | none => 128

/-- Those that have not been touched for some time are removed. -/
def updateQualities (touched : QualityInfo → Bool) (list : List QualityInfo) :
    List QualityInfo :=
  (list.filter touched).map fun cur => { cur with score := cur.score - cur.score / 16 }

end QualityInfo

namespace QualitySettings

/-- `dynamicQualityOff`, as every update sets it. -/
def dynamicQualityOff (q : QualitySettings) : ℕ :=
  if q.dynamicQualityMax ≠ 0 ∧ q.dynamicQualityMax ≤ 9 ∧
      q.dynamicQualityMax > q.dynamicQualityMin then
    q.dynamicQualityMax - q.dynamicQualityMin
  else 0

def scaledQuality (q : QualitySettings) (maxUpdateSize : ℕ) (list : List QualityInfo)
    (rect : Rect) : ℕ :=
  -- from 0-128 to the desired range, rounded
  let dynamic := (QualityInfo.getQuality list rect * q.dynamicQualityOff + 64) / 128 +
    q.dynamicQualityMin
  -- prefer quality, if there's bandwidth available
  if !q.preferBandwidth && 2000 < maxUpdateSize && dynamic < 7 then 7 else dynamic

end QualitySettings

/-! ## Rectangles that are sent -/

/-- What `startRect` and the codec know of a rectangle that is sent. -/
structure Sent where
  rect : Rect
  /-- The encoder object. -/
  klass : EncoderClass
  /-- The codec that made the image, if one did. -/
  codec : Option Codec
  /-- The level that was handed to `compressOnly`, or that `writeRect` takes. -/
  quality : ℤ
  /-- `qualityLevel` of the encoder object -/
  level : ℤ
  treatLossless : ℤ
  /-- Video was detected, or this is a frame of a video stream. -/
  video : Bool

namespace Sent

/-- The flag and the level of the encoder object say so. -/
def marked (w : Sent) : Bool := w.klass.lossy && (w.level < w.treatLossless || w.video)

/-- An image of JPEG or WEBP in video mode, or below the level as its encoder object is, too. -/
def lossyForObject (w : Sent) : Bool :=
  (w.codec = some .jpeg || w.codec = some .webp) &&
    (w.video || (w.quality < w.treatLossless && w.level < w.treatLossless))

/-- Whatever is sent in video mode, or an image of any of the three codecs below the level. -/
def lossyOrVideo (w : Sent) : Bool :=
  w.video || (w.codec.isSome && w.quality < w.treatLossless)

/-- An image of JPEG or WEBP is written by an object that has the flag. -/
def Flagged (w : Sent) : Prop :=
  w.codec = some .jpeg ∨ w.codec = some .webp → w.klass.lossy = true

theorem marked_of_lossyForObject {w : Sent} (hflag : w.Flagged)
    (hlossy : w.lossyForObject = true) : w.marked = true := by
  unfold lossyForObject at hlossy
  rw [Bool.and_eq_true, Bool.or_eq_true, Bool.or_eq_true, Bool.and_eq_true, decide_eq_true_eq,
    decide_eq_true_eq, decide_eq_true_eq, decide_eq_true_eq] at hlossy
  obtain ⟨hcodec, hlevel⟩ := hlossy
  unfold marked
  rw [Bool.and_eq_true, Bool.or_eq_true, decide_eq_true_eq]
  exact ⟨hflag hcodec, hlevel.symm.imp_left And.right⟩

end Sent

/-- The members of the encode manager that have to do with losses, everything that was sent, and
whether what the client shows at a pixel comes from a rectangle that counts as sent with losses. -/
structure LossyTracker where
  lossyRegion : Region
  /-- `qualityLevel` of the encoder objects. The classes without one do not look at it. -/
  qualityLevel : EncoderClass → ℤ
  qualityList : List QualityInfo
  videoDetected : Bool
  sent : List Sent
  lossy : Point → Bool

namespace LossyTracker

/-- What was sent with losses is tracked. -/
def Tracked (s : LossyTracker) : Prop := ∀ p, s.lossy p = true → p ∈ s.lossyRegion

def start (videoDetected : Bool) : LossyTracker where
  lossyRegion := ∅
  qualityLevel _ := -1
  qualityList := []
  videoDetected := videoDetected
  sent := []
  lossy _ := false

/-! ### Copies -/

section Copies

variable (s : LossyTracker)

/-- The client copies rectangle by rectangle, the region is copied once. -/
def writeCopyRects (copied : Region) (delta : Point) : LossyTracker :=
  { s with
    lossyRegion := s.lossyRegion ∪ s.lossyRegion.translate delta ∩ copied
    lossy := moves (copied.rectMoves delta) s.lossy }

def writeCopyPassRect (c : CopyPassRect) : LossyTracker :=
  { s with
    lossyRegion := s.lossyRegion ∪ s.lossyRegion.translate c.move.delta ∩ c.move.dest
    lossy := move c.move s.lossy }

def writeCopyPassRects (copypassed : List CopyPassRect) : LossyTracker :=
  copypassed.foldl writeCopyPassRect s

end Copies

/-! ### Rectangles -/

section Rects

variable (counts : Sent → Bool) (q : QualitySettings) (maxUpdateSize : ℕ) (s : LossyTracker)

/-- The levels that `prepareEncoders` hands to the active encoders. -/
def prepareEncoders (active : ActiveEncoders) (qualityLevel : ℤ) : LossyTracker :=
  { s with qualityLevel := fun klass =>
      if klass ∈ [active.solid, active.bitmap, active.bitmapRLE, active.indexed,
          active.indexedRLE, active.fullColour] then qualityLevel
      else s.qualityLevel klass }

/-- The level of the encoder object, and the mark. `dynamicQualityMin` is never negative. -/
def startRect (rect : Rect) (type : EncoderType) (klass : EncoderClass) (trackQuality : Bool) :
    LossyTracker :=
  let s :=
    if type = encoderFullColour ∧ trackQuality = true then
      let list := QualityInfo.trackRectQuality s.qualityList rect
      { s with
        qualityList := list
        -- set the dynamic quality here
        qualityLevel :=
          Function.update s.qualityLevel klass (q.scaledQuality maxUpdateSize list rect) }
    else s
  { s with lossyRegion :=
      if klass.lossy && (s.qualityLevel klass < q.treatLossless || s.videoDetected) then
        s.lossyRegion ∪ Region.ofRect rect
      else s.lossyRegion \ Region.ofRect rect }

/-- The pixels arrive. -/
def shows (w : Sent) : LossyTracker :=
  { s with
    sent := s.sent ++ [w]
    lossy := paint (Region.ofRect w.rect) (fun _ => counts w) s.lossy }

/-- What is sent once `startRect` is done: an image that is there already, or one that the object
makes itself at its own level. -/
def sentAs (rect : Rect) (klass : EncoderClass) (image : Option (Codec × ℤ)) : Sent where
  rect := rect
  klass := klass
  codec := (image.map Prod.fst).or klass.codec
  quality := (image.map Prod.snd).getD (s.qualityLevel klass)
  level := s.qualityLevel klass
  treatLossless := q.treatLossless
  video := s.videoDetected

def writeRect (rect : Rect) (type : EncoderType) (klass : EncoderClass)
    (image : Option (Codec × ℤ)) : LossyTracker :=
  let s := s.startRect q maxUpdateSize rect type klass image.isNone
  s.shows counts (s.sentAs q rect klass image)

/-- What phase one has left for a tile, with the level at which it was compressed. -/
def imageOf (e : Encoded) (quality : ℤ) : Option (Codec × ℤ) :=
  e.compressed.head?.map fun b => (b.1, quality)

/-- `writeRects` on the tiles. What the cache has for a tile was compressed at some level. -/
def writeRects (p : EncodePass) (active : ActiveEncoders) (c : EncCache)
    (cachedQuality : Rect → ℕ) : LossyTracker :=
  let list := p.tiles.foldl (fun list t => QualityInfo.trackRectQuality list t.rect) s.qualityList
  let ph := p.encodeTiles active c
  let active := EncodePass.fallback active ph.webpTookTooLong
  p.tiles.zipIdx.foldl (fun s ti =>
    let e := ph.encoded ti.2
    let quality := if e.fromCache then cachedQuality ti.1.rect
      else q.scaledQuality maxUpdateSize list ti.1.rect
    s.writeRect counts q maxUpdateSize ti.1.rect e.type
      (EncodePass.startRect active e.type e.isWebp) (imageOf e quality))
    { s with qualityList := list }

end Rects

end LossyTracker

/-! ## Updates -/

/-- What an update of the client finds. -/
structure LossyUpdate where
  settings : QualitySettings
  maxUpdateSize : ℕ
  copied : Region
  copyDelta : Point
  copypassed : List CopyPassRect
  tiles : TileUpdate
  /-- The screens whose frames are sent if this goes as a video stream. -/
  frames : List Rect
  /-- So much has changed that video is detected. -/
  detected : Bool
  encCache : EncCache
  coherent : encCache.Coherent
  cachedQuality : Rect → ℕ
  touched : QualityInfo → Bool

/-- `writeLosslessRefresh` copies nothing, and nothing may be lost. -/
def LossyUpdate.refresh (u : LossyUpdate) : LossyUpdate :=
  { u with
    copied := ∅, copyDelta := (0, 0), copypassed := []
    tiles := { u.tiles with allowLossy := false } }

inductive LossyEvent
  | writeUpdate (u : LossyUpdate)
  | writeLosslessRefresh (u : LossyUpdate)
  /-- The framebuffer of the client has another size. -/
  | pruneLosslessRefresh (limits : Rect)
  | handleTimeout

/-- The update that is written, if one is. -/
def LossyEvent.update : LossyEvent → Option LossyUpdate
  | writeUpdate u => some u
  | writeLosslessRefresh u => some u.refresh
  | pruneLosslessRefresh _ => none
  | handleTimeout => none

namespace LossyTracker

section Updates

variable (counts : Sent → Bool) (s : LossyTracker)

/-- A frame of a video stream. It does not go through `startRect`. -/
def writeFrame (treatLossless : ℤ) (rect : Rect) : LossyTracker :=
  s.shows counts
    { rect, klass := encoderKasmVideo, codec := none, quality := -1, level := -1, treatLossless
      video := true }

/-- `doUpdate` between the header and the end. -/
def doUpdate (u : LossyUpdate) : LossyTracker :=
  let q := u.settings
  let active := u.tiles.main.params.prepareEncoders u.tiles.allowLossy
  let s := s.prepareEncoders active u.tiles.main.params.qualityLevel
  let s := (s.writeCopyRects u.copied u.copyDelta).writeCopyPassRects u.copypassed
  let s :=
    if u.tiles.videoMode then
      let s := u.frames.foldl (fun s rect => s.writeFrame counts q.treatLossless rect) s
      { s with videoDetected := s.videoDetected || u.detected }
    else
      let s := u.tiles.solid.foldl
        (fun s t => s.writeRect counts q u.maxUpdateSize t.rect encoderSolid active.solid none) s
      let s := writeRects counts q u.maxUpdateSize
        { s with videoDetected := s.videoDetected || u.detected } u.tiles.main active u.encCache
        u.cachedQuality
      let main := u.tiles.main.writeRects active u.encCache
      match u.tiles.cursor with
      | none => s
      | some cursor =>
        -- in case detection happened between the calls
        if s.videoDetected then s
        else s.writeRects counts q u.maxUpdateSize cursor main.1 main.2.1 u.cachedQuality
  { s with qualityList := QualityInfo.updateQualities u.touched s.qualityList }

/-- What is outside is gone on the client, too. -/
def pruneLosslessRefresh (limits : Rect) : LossyTracker :=
  { s with
    lossyRegion := s.lossyRegion ∩ Region.ofRect limits
    lossy := fun p => p ∈ Region.ofRect limits && s.lossy p }

def step : LossyEvent → LossyTracker
  | .writeUpdate u => s.doUpdate counts u
  | .writeLosslessRefresh u =>
    if s.videoDetected || u.tiles.main.videoModeAvailable then s
    else s.doUpdate counts u.refresh
  | .pruneLosslessRefresh limits => s.pruneLosslessRefresh limits
  | .handleTimeout => { s with videoDetected := false }

end Updates

/-! ## What an update keeps -/

/-- An image that is there already is one of JPEG or WEBP only if the object has the flag. -/
def Flagged (klass : EncoderClass) (image : Option (Codec × ℤ)) : Prop :=
  ∀ i ∈ image, i.1 = .jpeg ∨ i.1 = .webp → klass.lossy = true

theorem flagged_none {klass : EncoderClass} : Flagged klass none :=
  fun i hi => absurd hi (Option.not_mem_none i)

theorem lossy_of_codec {klass : EncoderClass}
    (h : klass.codec = some .jpeg ∨ klass.codec = some .webp) : klass.lossy = true := by
  cases klass <;> first | rfl | (rcases h with h | h <;> cases h)

theorem Flagged.sentAs {klass : EncoderClass} {image : Option (Codec × ℤ)}
    (h : Flagged klass image) (s : LossyTracker) (q : QualitySettings) (rect : Rect) :
    (s.sentAs q rect klass image).Flagged := by
  intro hcodec
  cases image with
  | none => exact lossy_of_codec hcodec
  | some i => exact h i rfl (hcodec.imp (fun h => Option.some.inj h) fun h => Option.some.inj h)

/-- What phase one has left of JPEG or WEBP is written by one of the two. -/
theorem flagged_imageOf {p : EncodePass} {active : ActiveEncoders} {c : EncCache}
    (hc : c.Coherent) {tooLong final : Bool} (hflag : tooLong = true → final = true) {t : Tile}
    {e : Encoded} (hsource : EncodePass.Source p active c tooLong t e) (quality : ℤ) :
    Flagged (EncodePass.startRect (EncodePass.fallback active final) e.type e.isWebp)
      (imageOf e quality) := by
  intro i hi hcodec
  obtain ⟨b, hb, rfl⟩ := Option.map_eq_some_iff.mp hi
  have hmem : b ∈ e.compressed := List.mem_of_head? hb
  have hjpeg : final = true →
      (EncodePass.fallback active final).fullColour.lossy = true := by
    rintro rfl
    rfl
  cases hsource with
  | uncompressed => cases hmem
  | webp => rfl
  | cached data _ _ _ hdata =>
    unfold EncodePass.cached at hdata
    split at hdata
    · have hclass := (hc.get hdata).2 b hmem
      cases final with
      | true => exact hjpeg rfl
      | false =>
        have hactive : active.fullColour.codec = some .jpeg ∨
            active.fullColour.codec = some .webp := by
          rcases hcodec with hcodec | hcodec
          · exact Or.inl (hclass.trans (congrArg some hcodec))
          · exact Or.inr (hclass.trans (congrArg some hcodec))
        exact lossy_of_codec hactive
    · cases hdata
  | qoi =>
    obtain ⟨v, -, rfl⟩ := List.mem_map.mp hmem
    rcases hcodec with hcodec | hcodec <;> cases hcodec
  | jpeg hactive =>
    rcases hactive with hactive | htoo
    · cases final with
      | true => exact hjpeg rfl
      | false => exact congrArg EncoderClass.lossy hactive
    · exact hjpeg (hflag htoo)

/-- Each part of an update that meets `U` keeps `I`, and so does what happens in between. -/
structure PartsKeep (counts : Sent → Bool) (U : LossyUpdate → Prop) (I : LossyTracker → Prop) :
    Prop where
  prepareEncoders : ∀ {u s}, U u → I s → ∀ active,
    I (s.prepareEncoders active u.tiles.main.params.qualityLevel)
  writeCopyRects : ∀ {s}, I s → ∀ copied delta, I (s.writeCopyRects copied delta)
  writeCopyPassRect : ∀ {s}, I s → ∀ c, I (s.writeCopyPassRect c)
  writeFrame : ∀ {u s}, U u → I s → ∀ rect,
    I (s.writeFrame counts u.settings.treatLossless rect)
  writeRect : ∀ {u s}, U u → I s → ∀ rect type {klass image}, Flagged klass image →
    I (s.writeRect counts u.settings u.maxUpdateSize rect type klass image)
  pruneLosslessRefresh : ∀ {s}, I s → ∀ limits, I (s.pruneLosslessRefresh limits)
  /-- Neither the list of what changes nor the detection matter by themselves. -/
  others : ∀ {s t}, I s → t.lossyRegion = s.lossyRegion → t.qualityLevel = s.qualityLevel →
    t.sent = s.sent → t.lossy = s.lossy → I t

namespace PartsKeep

variable {counts : Sent → Bool} {U : LossyUpdate → Prop} {I : LossyTracker → Prop}
  {u : LossyUpdate} {s : LossyTracker}

theorem writeRects (h : PartsKeep counts U I) (hu : U u) (hs : I s) (p : EncodePass)
    (active : ActiveEncoders) {c : EncCache} (hc : c.Coherent) :
    I (s.writeRects counts u.settings u.maxUpdateSize p active c u.cachedQuality) := by
  refine run_invariant_mem (I := I) (fun s ti hti hs => ?_) (h.others hs rfl rfl rfl rfl)
  obtain ⟨tooLong, hflag, hencoded⟩ : ∃ tooLong : Bool,
      (tooLong = true → (p.encodeTiles active c).webpTookTooLong = true) ∧
        (p.encodeTiles active c).encoded ti.2 = p.getEncoderType active c tooLong ti.1 :=
    EncodePass.encodeTiles_encoded (List.mk_mem_zipIdx_iff_getElem?.mp hti)
  refine h.writeRect hu hs _ _ ?_
  rw [hencoded]
  exact flagged_imageOf hc hflag (EncodePass.source_getEncoderType tooLong ti.1) _

/-- So the whole update keeps it. -/
theorem doUpdate (h : PartsKeep counts U I) (hu : U u) (hs : I s) : I (s.doUpdate counts u) := by
  unfold LossyTracker.doUpdate
  dsimp only
  generalize hactive : u.tiles.main.params.prepareEncoders u.tiles.allowLossy = active
  have hcopied := h.writeCopyRects (h.prepareEncoders hu hs active) u.copied u.copyDelta
  have hcopypassed : I (((s.prepareEncoders active u.tiles.main.params.qualityLevel).writeCopyRects
      u.copied u.copyDelta).writeCopyPassRects u.copypassed) :=
    run_invariant_all (I := I) (fun _ c hs => h.writeCopyPassRect hs c) u.copypassed hcopied
  generalize ((s.prepareEncoders active u.tiles.main.params.qualityLevel).writeCopyRects
    u.copied u.copyDelta).writeCopyPassRects u.copypassed = t at *
  split
  · -- a video stream
    have hframes : I (u.frames.foldl (fun s rect => s.writeFrame counts
        u.settings.treatLossless rect) t) :=
      run_invariant_all (I := I) (fun _ rect hs => h.writeFrame hu hs rect) u.frames hcopypassed
    exact h.others hframes rfl rfl rfl rfl
  · have hrect : ∀ (s : LossyTracker) (t : Tile), I s → I (s.writeRect counts u.settings
        u.maxUpdateSize t.rect encoderSolid active.solid none) :=
      fun _ t hs => h.writeRect hu hs t.rect encoderSolid flagged_none
    have hsolid : I (u.tiles.solid.foldl (fun s t => s.writeRect counts u.settings
        u.maxUpdateSize t.rect encoderSolid active.solid none) t) :=
      run_invariant_all hrect u.tiles.solid hcopypassed
    generalize u.tiles.solid.foldl (fun s t => s.writeRect counts u.settings
      u.maxUpdateSize t.rect encoderSolid active.solid none) t = solid at *
    have hdetected : I { solid with videoDetected := solid.videoDetected || u.detected } :=
      h.others hsolid rfl rfl rfl rfl
    have hmain := h.writeRects hu hdetected u.tiles.main active u.coherent
    split
    · exact h.others hmain rfl rfl rfl rfl
    · split
      · exact h.others hmain rfl rfl rfl rfl
      · have hcache := (EncodePass.writeRects_spec (p := u.tiles.main) u.coherent
          (hactive ▸ EncoderParams.prepareEncoders_qoi)).1
        exact h.others (h.writeRects hu hmain _ _ hcache) rfl rfl rfl rfl

theorem step (h : PartsKeep counts U I) {e : LossyEvent} (he : ∀ u ∈ e.update, U u) (hs : I s) :
    I (s.step counts e) := by
  cases e with
  | writeUpdate u => exact h.doUpdate (he u rfl) hs
  | writeLosslessRefresh u =>
    unfold LossyTracker.step
    dsimp only
    split
    · exact hs
    · exact h.doUpdate (he u.refresh rfl) hs
  | pruneLosslessRefresh limits => exact h.pruneLosslessRefresh hs limits
  | handleTimeout => exact h.others hs rfl rfl rfl rfl

/-- And a run of updates keeps it. -/
theorem run (h : PartsKeep counts U I) {es : List LossyEvent}
    (hes : ∀ e ∈ es, ∀ u ∈ e.update, U u) (hs : I s) :
    I (KasmVNC.Lib.run (LossyTracker.step counts) s es) :=
  run_invariant_mem (I := I) (fun _ e he hs => h.step (hes e he) hs) hs

end PartsKeep

/-! ## The mark of a rectangle -/

section Mark

variable {s : LossyTracker} {q : QualitySettings} {maxUpdateSize : ℕ} {rect : Rect}
  {type : EncoderType} {klass : EncoderClass} {image : Option (Codec × ℤ)}

@[simp] theorem startRect_sent (track : Bool) :
    (s.startRect q maxUpdateSize rect type klass track).sent = s.sent := by
  unfold startRect
  dsimp only
  split <;> rfl

@[simp] theorem startRect_lossy (track : Bool) :
    (s.startRect q maxUpdateSize rect type klass track).lossy = s.lossy := by
  unfold startRect
  dsimp only
  split <;> rfl

/-- The mark is that of the object, once its level is set. -/
theorem startRect_lossyRegion (track : Bool) (image : Option (Codec × ℤ)) :
    let t := s.startRect q maxUpdateSize rect type klass track
    t.lossyRegion = if (t.sentAs q rect klass image).marked then s.lossyRegion ∪ Region.ofRect rect
      else s.lossyRegion \ Region.ofRect rect := by
  unfold startRect
  dsimp only
  split <;> rfl

end Mark

/-! ## What was sent -/

/-- All that was sent is flagged. -/
def Flags (s : LossyTracker) : Prop := ∀ w ∈ s.sent, w.Flagged

@[simp] theorem mem_shows_sent {s : LossyTracker} {counts : Sent → Bool} {v w : Sent} :
    v ∈ (s.shows counts w).sent ↔ v ∈ s.sent ∨ v = w := by
  simp [shows]

theorem Flags.shows {s : LossyTracker} (h : s.Flags) {counts : Sent → Bool} {w : Sent}
    (hw : w.Flagged) : (s.shows counts w).Flags := by
  intro v hv
  rcases mem_shows_sent.mp hv with hold | rfl
  · exact h v hold
  · exact hw

theorem partsKeep_flags (counts : Sent → Bool) : PartsKeep counts (fun _ => True) Flags where
  prepareEncoders _ hs _ := hs
  writeCopyRects hs _ _ := hs
  writeCopyPassRect hs _ := hs
  writeFrame _ hs _ := hs.shows fun hcodec => by rcases hcodec with h | h <;> cases h
  writeRect _ hs rect type klass _ hflag := by
    refine Flags.shows ?_ (hflag.sentAs _ _ rect)
    intro w hw
    rw [startRect_sent] at hw
    exact hs w hw
  pruneLosslessRefresh hs _ := hs
  others hs _ _ hsent _ := by
    unfold Flags
    rw [hsent]
    exact hs

/-! ## What keeps the region right -/

/-- What counts is tracked if all of it was marked as it was sent. -/
def Safe (counts : Sent → Bool) (s : LossyTracker) : Prop :=
  (∀ w ∈ s.sent, counts w = true → w.marked = true) → s.Tracked

variable {counts : Sent → Bool} {s : LossyTracker}

theorem Safe.writeCopyRects (h : s.Safe counts) (copied : Region) (delta : Point) :
    (s.writeCopyRects copied delta).Safe counts := by
  intro hsent p hp
  have hmoved : s.lossy (Move.origin ⟨copied, delta⟩ p) = true := by
    rw [← hp]
    exact (congrFun (Region.moves_rectMoves copied delta s.lossy) p).symm
  have horigin := h hsent _ hmoved
  by_cases hcopied : p ∈ copied
  · rw [Move.origin_of_mem hcopied] at horigin
    exact Finset.mem_union_right _
      (Finset.mem_inter.mpr ⟨Region.mem_translate.mpr horigin, hcopied⟩)
  · rw [Move.origin_of_notMem hcopied] at horigin
    exact Finset.mem_union_left _ horigin

theorem Safe.writeCopyPassRect (h : s.Safe counts) (c : CopyPassRect) :
    (s.writeCopyPassRect c).Safe counts := by
  intro hsent p hp
  have horigin := h hsent _ hp
  by_cases hcopied : p ∈ c.move.dest
  · rw [Move.origin_of_mem hcopied] at horigin
    exact Finset.mem_union_right _
      (Finset.mem_inter.mpr ⟨Region.mem_translate.mpr horigin, hcopied⟩)
  · rw [Move.origin_of_notMem hcopied] at horigin
    exact Finset.mem_union_left _ horigin

/-- What is sent next is tracked if it is marked, when the region has the mark of it. -/
theorem Safe.shows (h : s.Safe counts) {w : Sent} {t : LossyTracker} (hsent : t.sent = s.sent)
    (hlossy : t.lossy = s.lossy)
    (hmark : w.marked = true → ∀ p, p ∈ s.lossyRegion ∨ p ∈ Region.ofRect w.rect →
      p ∈ t.lossyRegion)
    (hclear : ∀ p, p ∈ s.lossyRegion → p ∉ Region.ofRect w.rect → p ∈ t.lossyRegion) :
    (t.shows counts w).Safe counts := by
  intro hall p hp
  have hbefore : s.Tracked := by
    refine h fun v hv => hall v (mem_shows_sent.mpr (Or.inl ?_))
    rw [hsent]
    exact hv
  have hp : paint (Region.ofRect w.rect) (fun _ => counts w) s.lossy p = true := hlossy ▸ hp
  by_cases hin : p ∈ Region.ofRect w.rect
  · have hmarked := hall w (mem_shows_sent.mpr (Or.inr rfl)) ((paint_of_mem hin).symm.trans hp)
    exact hmark hmarked p (Or.inr hin)
  · exact hclear p (hbefore p ((paint_of_notMem hin).symm.trans hp)) hin

theorem partsKeep_safe (counts : Sent → Bool) :
    PartsKeep counts (fun _ => True) (Safe counts) where
  prepareEncoders _ hs _ := hs
  writeCopyRects hs := hs.writeCopyRects
  writeCopyPassRect hs := hs.writeCopyPassRect
  writeFrame _ hs _ := by
    -- the encoder object of the stream has no flag
    refine hs.shows rfl rfl (fun hmarked => ?_) fun _ hp _ => hp
    cases hmarked
  writeRect _ hs rect type klass image _ := by
    refine hs.shows (startRect_sent _) (startRect_lossy _) (fun hmarked p hp => ?_)
      fun p hp hout => ?_
    · rw [startRect_lossyRegion _ image, if_pos hmarked]
      exact Finset.mem_union.mpr hp
    · rw [startRect_lossyRegion _ image]
      split
      · exact Finset.mem_union_left _ hp
      · exact Finset.mem_sdiff.mpr ⟨hp, hout⟩
  pruneLosslessRefresh hs limits := by
    intro hsent p hp
    have hboth := Bool.and_eq_true_iff.mp hp
    exact Finset.mem_inter.mpr ⟨hs hsent p hboth.2, of_decide_eq_true hboth.1⟩
  others hs hregion _ hsent hlossy := by
    unfold Safe Tracked
    rw [hregion, hsent, hlossy]
    exact hs

theorem safe_start (counts : Sent → Bool) (videoDetected : Bool) :
    (start videoDetected).Safe counts :=
  fun _ _ hp => absurd hp Bool.false_ne_true

theorem flags_run (counts : Sent → Bool) (videoDetected : Bool) (es : List LossyEvent) :
    (run (step counts) (start videoDetected) es).Flags :=
  (partsKeep_flags counts).run (fun _ _ _ _ => trivial) fun _ hw => absurd hw List.not_mem_nil

/-- Whatever counts as lossy, it is tracked over a run that marks all of it. -/
theorem tracked_of_marked (counts : Sent → Bool) (videoDetected : Bool) (es : List LossyEvent)
    (hsent : ∀ w ∈ (run (step counts) (start videoDetected) es).sent,
      counts w = true → w.marked = true) :
    (run (step counts) (start videoDetected) es).Tracked :=
  (partsKeep_safe counts).run (fun _ _ _ _ => trivial) (safe_start counts videoDetected) hsent

/-- **Lossy tracking.** The lossy region has every pixel whose content comes from an image of
JPEG or WEBP that was sent in video mode, or below `TreatLossless` by an object that is below it,
too. -/
theorem lossy_tracked (videoDetected : Bool) (es : List LossyEvent) :
    (run (step Sent.lossyForObject) (start videoDetected) es).Tracked :=
  tracked_of_marked _ videoDetected es fun w hw =>
    Sent.marked_of_lossyForObject (flags_run _ videoDetected es w hw)

/-- An update of one photo, for a client that takes these images at that level. -/
def photoSent (cp : ConnParams) (qualityLevel treatLossless : ℤ) : LossyUpdate where
  settings :=
    { dynamicQualityMin := 0, dynamicQualityMax := 0, preferBandwidth := true, treatLossless
      dynamicQualityMin_le := Nat.zero_le 9 }
  maxUpdateSize := 0
  copied := ∅
  copyDelta := (0, 0)
  copypassed := []
  tiles :=
    { photoUpdate 1000 with
      main := { (photoUpdate 1000).main with
        params := { cp, qualityLevel, preferred := encodingTight, bpp := 32 } }
      cursor := none
      cursorUntimed := fun _ h => nomatch h }
  frames := []
  detected := false
  encCache := { enabled := false, cache := [] }
  coherent := fun _ he => nomatch he
  cachedQuality := fun _ => 0
  touched := fun _ => true

/-- A client that takes QOI. -/
def qoiClient : ConnParams := { encodings := [encodingTight], supportsQOI := true }

set_option maxRecDepth 4000 in
/-- QOI has levels like the others, but its encoder is not a lossy one. -/
theorem qoi_not_tracked :
    ¬(run (step Sent.lossyOrVideo) (start false)
      [.writeUpdate (photoSent qoiClient 8 10)]).Tracked := by
  intro h
  have hlossy := h (0, 0) (by decide)
  exact absurd hlossy (by decide)

end LossyTracker

end KasmVNC.Rfb
