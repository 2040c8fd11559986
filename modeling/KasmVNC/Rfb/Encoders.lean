import KasmVNC.Rfb.ConnParams

/-!
# The encoders of a connection

`EncodeManager` owns one encoder object per class and keeps, for each kind of
rectangle, the class that is active for it. `prepareEncoders` chooses the active
classes at the start of every update from what the client supports.
-/

namespace KasmVNC.Rfb

inductive EncoderClass
  | encoderRaw
  | encoderRRE
  | encoderHextile
  | encoderTight
  | encoderTightJPEG
  | encoderTightWEBP
  | encoderTightQOI
  | encoderZRLE
  | encoderKasmVideo
deriving DecidableEq, Repr

inductive EncoderType
  | encoderSolid
  | encoderBitmap
  | encoderBitmapRLE
  | encoderIndexed
  | encoderIndexedRLE
  | encoderFullColour
deriving DecidableEq, Repr

open EncoderClass EncoderType

abbrev subsampleUndefined : ℤ := -1
abbrev subsampleGray : ℤ := 1

/-- What `prepareEncoders` reads from the connection. -/
structure EncoderParams where
  cp : ConnParams
  /-- `conn->getPreferredEncoding()` -/
  preferred : ℤ
  /-- `conn->cp.pf().bpp` -/
  bpp : ℕ
  qualityLevel : ℤ := -1
  fineQualityLevel : ℤ := -1
  subsampling : ℤ := subsampleUndefined
deriving DecidableEq

namespace EncoderClass

/-- `Encoder::maxPaletteSize`. The `-1` of most constructors becomes the largest
`unsigned int`. -/
def maxPaletteSize : EncoderClass → ℕ
  | encoderTight => 256
  | encoderZRLE => 127
  | _ => 2 ^ 32 - 1

/-- `Encoder::flags & EncoderLossy` -/
def lossy : EncoderClass → Bool
  | encoderTightJPEG | encoderTightWEBP => true
  | _ => false

/-- `Encoder::isSupported`, for the classes `prepareEncoders` asks. -/
def isSupported (p : EncoderParams) : EncoderClass → Bool
  | encoderRaw => true
  | encoderRRE => p.cp.supportsEncoding encodingRRE
  | encoderHextile => p.cp.supportsEncoding encodingHextile
  | encoderTight => p.cp.supportsEncoding encodingTight
  | encoderTightJPEG =>
    p.cp.supportsEncoding encodingTight &&
      (p.qualityLevel ≠ -1 || p.fineQualityLevel ≠ -1 || p.subsampling ≠ -1)
  | encoderTightWEBP => p.cp.supportsEncoding encodingTight && p.cp.supportsWEBP
  | encoderTightQOI => p.cp.supportsEncoding encodingTight && p.cp.supportsQOI
  | encoderZRLE => p.cp.supportsEncoding encodingZRLE
  | encoderKasmVideo => true

end EncoderClass

/-- `activeEncoders` -/
structure ActiveEncoders where
  solid : EncoderClass := encoderRaw
  bitmap : EncoderClass := encoderRaw
  bitmapRLE : EncoderClass := encoderRaw
  indexed : EncoderClass := encoderRaw
  indexedRLE : EncoderClass := encoderRaw
  fullColour : EncoderClass := encoderRaw
deriving DecidableEq, Repr

namespace ActiveEncoders

def get (a : ActiveEncoders) : EncoderType → EncoderClass
  | encoderSolid => a.solid
  | encoderBitmap => a.bitmap
  | encoderBitmapRLE => a.bitmapRLE
  | encoderIndexed => a.indexed
  | encoderIndexedRLE => a.indexedRLE
  | encoderFullColour => a.fullColour

end ActiveEncoders

namespace EncoderParams

def isHighBppSupported (p : EncoderParams) : Bool := 16 ≤ p.bpp

def isHighBppLossyAllowed (p : EncoderParams) (allowLossy : Bool) : Bool :=
  p.isHighBppSupported && allowLossy

/-- The image codecs come first, wherever a full colour encoder is looked for. -/
def imageEncoder (p : EncoderParams) (allowLossy : Bool) (otherwise : EncoderClass) :
    EncoderClass :=
  if encoderTightQOI.isSupported p && p.isHighBppSupported then encoderTightQOI
  else if encoderTightWEBP.isSupported p && p.isHighBppLossyAllowed allowLossy then
    encoderTightWEBP
  else if encoderTightJPEG.isSupported p && p.isHighBppLossyAllowed allowLossy then
    encoderTightJPEG
  else otherwise

/-- Try to respect the client's wishes. -/
def preferredEncoders (p : EncoderParams) (allowLossy : Bool) : ActiveEncoders :=
  if p.preferred = encodingRRE then
    { bitmapRLE := encoderRRE, indexedRLE := encoderRRE }
  else if p.preferred = encodingHextile then
    { bitmapRLE := encoderHextile, indexedRLE := encoderHextile, fullColour := encoderHextile }
  else if p.preferred = encodingTight then
    { bitmap := encoderTight, bitmapRLE := encoderTight, indexed := encoderTight
      indexedRLE := encoderTight, fullColour := p.imageEncoder allowLossy encoderTight }
  else if p.preferred = encodingZRLE then
    { bitmap := encoderZRLE, bitmapRLE := encoderZRLE, indexed := encoderZRLE
      indexedRLE := encoderZRLE, fullColour := encoderZRLE }
  else {}

/-- The first supported class of a list, or else Raw. -/
def firstSupported (p : EncoderParams) (classes : List EncoderClass) : EncoderClass :=
  (classes.find? (·.isSupported p)).getD encoderRaw

/-- A class that is still unassigned is given another one. -/
def orElse (klass other : EncoderClass) : EncoderClass :=
  if klass = encoderRaw then other else klass

/-- Any encoders still unassigned? -/
def assignEncoders (p : EncoderParams) (allowLossy : Bool) (a : ActiveEncoders) :
    ActiveEncoders :=
  let fullColour := orElse a.fullColour (p.imageEncoder allowLossy
    (p.firstSupported [encoderZRLE, encoderTight, encoderHextile]))
  let indexed := orElse a.indexed
    (p.firstSupported [encoderZRLE, encoderTight, encoderHextile])
  let indexedRLE := orElse a.indexedRLE indexed
  let bitmap := orElse a.bitmap indexed
  let bitmapRLE := orElse a.bitmapRLE bitmap
  let solid := orElse a.solid
    (p.firstSupported [encoderTight, encoderRRE, encoderZRLE, encoderHextile])
  { solid, bitmap, bitmapRLE, indexed, indexedRLE, fullColour }

/-- `EncodeManager::prepareEncoders`, without the levels it hands to the encoders.
JPEG is the only encoder that can reduce things to grayscale. -/
def prepareEncoders (p : EncoderParams) (allowLossy : Bool) : ActiveEncoders :=
  if p.subsampling = subsampleGray && encoderTightJPEG.isSupported p && allowLossy then
    { solid := encoderTightJPEG, bitmap := encoderTightJPEG, bitmapRLE := encoderTightJPEG
      indexed := encoderTightJPEG, indexedRLE := encoderTightJPEG
      fullColour := encoderTightJPEG }
  else p.assignEncoders allowLossy (p.preferredEncoders allowLossy)

/-! ## Which classes can be active -/

section Active

variable {p : EncoderParams} {allowLossy : Bool}

theorem firstSupported_mem (classes : List EncoderClass) :
    p.firstSupported classes ∈ encoderRaw :: classes := by
  unfold firstSupported
  cases hfind : classes.find? (·.isSupported p) with
  | none => exact List.mem_cons_self
  | some klass => exact List.mem_cons_of_mem _ (List.mem_of_find?_eq_some hfind)

/-- QOI is used for full colour only with a client that supports it. -/
theorem imageEncoder_qoi {otherwise : EncoderClass} (hother : otherwise ≠ encoderTightQOI)
    (h : p.imageEncoder allowLossy otherwise = encoderTightQOI) :
    encoderTightQOI.isSupported p = true := by
  unfold imageEncoder at h
  by_cases hq : (encoderTightQOI.isSupported p && p.isHighBppSupported) = true
  · exact (Bool.and_eq_true_iff.mp hq).1
  · rw [if_neg hq] at h
    split at h
    · cases h
    · split at h
      · cases h
      · exact absurd h hother

theorem prepareEncoders_qoi (h : (p.prepareEncoders allowLossy).fullColour = encoderTightQOI) :
    encoderTightQOI.isSupported p = true := by
  unfold prepareEncoders at h
  split at h
  · cases h
  · have hfirst : p.firstSupported [encoderZRLE, encoderTight, encoderHextile] ≠
        encoderTightQOI := by
      intro heq
      have hmem := firstSupported_mem (p := p) [encoderZRLE, encoderTight, encoderHextile]
      rw [heq] at hmem
      simp at hmem
    change orElse (p.preferredEncoders allowLossy).fullColour _ = _ at h
    unfold orElse at h
    split at h
    · exact imageEncoder_qoi hfirst h
    · -- only the wish for Tight asks for an image codec
      unfold preferredEncoders at h
      split at h
      · cases h
      · split at h
        · cases h
        · split at h
          · exact imageEncoder_qoi (by decide) h
          · split at h <;> cases h

end Active

end EncoderParams

end KasmVNC.Rfb
