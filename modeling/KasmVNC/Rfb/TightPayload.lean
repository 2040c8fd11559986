import KasmVNC.Lib.Run
import KasmVNC.Rfb.Encoders

/-!
# Labels of the Tight payloads

`EncodeManager::writeRects` compresses its tiles in a `parallel_for` and writes
them afterwards. What the first phase found out about a tile reaches the second
one in a few arrays, and a cache that all clients share answers for some tiles.
Every byte of a compressed image carries the codec that made it, and every image
is written behind a control byte that names one. They agree in a run of the
server exactly as long as no update takes a WEBP image from the cache and then
gives up on WEBP, and no image in the cache is shorter than its key says.
-/

namespace KasmVNC.Rfb

open KasmVNC.Lib EncoderClass EncoderType

inductive Codec
  | jpeg
  | webp
  | qoi
deriving DecidableEq, Repr

/-- The control byte in front of an image: `tightJpeg`, `tightWebp` or `tightQoi`,
shifted. -/
def Codec.control : Codec → ℕ
  | .jpeg => 0x09 <<< 4
  | .webp => 0x0b <<< 4
  | .qoi => 0x0c <<< 4

theorem Codec.control_injective : ∀ c d : Codec, c.control = d.control → c = d := by
  intro c d
  cases c <;> cases d <;> decide

/-- The codec an encoder class compresses with. -/
def EncoderClass.codec : EncoderClass → Option Codec
  | encoderTightJPEG => some .jpeg
  | encoderTightWEBP => some .webp
  | encoderTightQOI => some .qoi
  | _ => none

/-- A byte of an image, with the codec that produced it. -/
abbrev CodedByte := Codec × UInt8

/-! ## The shared cache -/

/-- `EncId` -/
structure EncId where
  type : EncoderClass
  x : ℕ
  y : ℕ
  w : ℕ
  h : ℕ
  len : ℕ
deriving DecidableEq

/-- The coordinates of a key are `uint16_t`. -/
def EncId.ofRect (type : EncoderClass) (r : Rect) (len : ℕ) : EncId where
  type := type
  x := (r.tl.1 % 2 ^ 16).toNat
  y := (r.tl.2 % 2 ^ 16).toNat
  w := (r.width % 2 ^ 16).toNat
  h := (r.height % 2 ^ 16).toNat
  len := len

/-- The map finds a key that is neither less nor greater than its own, and
`operator <` compares member by member with `||`: the two agree in all but the
length. -/
def EncId.equivalent (a b : EncId) : Bool :=
  a.type = b.type && a.x = b.x && a.y = b.y && a.w = b.w && a.h = b.h

/-- `EncCache` -/
structure EncCache where
  enabled : Bool
  cache : List (EncId × List CodedByte)

namespace EncCache

def clear (c : EncCache) : EncCache := { c with cache := [] }

/-- `cache[id] = data`. Where the key is there already it stays, with its length. -/
def add (id : EncId) (data : List CodedByte) (c : EncCache) : EncCache :=
  if c.cache.any (fun e => e.1.equivalent id) then
    { c with cache := c.cache.map fun e => if e.1.equivalent id then (e.1, data) else e }
  else { c with cache := (id, data) :: c.cache }

/-- What a client copies out of the cache: as many bytes as the key says. Behind the
end of an image that is shorter than that lies memory that no codec wrote, of which
only the number of bytes is known. -/
def get (id : EncId) (c : EncCache) : Option (List CodedByte × ℕ) :=
  (c.cache.find? (·.1.equivalent id)).map fun e => (e.2.take e.1.len, e.1.len - e.2.length)

/-- Every image was made by the codec it is filed under, and none is empty. -/
def Coherent (c : EncCache) : Prop :=
  ∀ e ∈ c.cache, e.1.len ≠ 0 ∧ e.2 ≠ [] ∧ ∀ b ∈ e.2, e.1.type.codec = some b.1

theorem Coherent.add {c : EncCache} (hc : c.Coherent) {id : EncId} {data : List CodedByte}
    (hlen : id.len ≠ 0) (hne : data ≠ []) (hdata : ∀ b ∈ data, id.type.codec = some b.1) :
    (c.add id data).Coherent := by
  intro e he
  unfold EncCache.add at he
  split at he
  · obtain ⟨d, hd, rfl⟩ := List.mem_map.mp he
    obtain ⟨hdlen, hdne, hdcodec⟩ := hc d hd
    by_cases heq : d.1.equivalent id = true
    · rw [if_pos heq]
      have htype : d.1.type = id.type := by
        simp only [EncId.equivalent, Bool.and_eq_true, decide_eq_true_eq] at heq
        exact heq.1.1.1.1
      exact ⟨hdlen, hne, by rw [htype]; exact hdata⟩
    · rw [if_neg heq]
      exact ⟨hdlen, hdne, hdcodec⟩
  · rcases List.mem_cons.mp he with rfl | he
    · exact ⟨hlen, hne, hdata⟩
    · exact hc e he

theorem Coherent.get {c : EncCache} (hc : c.Coherent) {id : EncId}
    {got : List CodedByte × ℕ} (h : c.get id = some got) :
    got.1 ≠ [] ∧ ∀ b ∈ got.1, id.type.codec = some b.1 := by
  obtain ⟨e, he, rfl⟩ := Option.map_eq_some_iff.mp h
  obtain ⟨hlen, hne, hcodec⟩ := hc e (List.mem_of_find?_eq_some he)
  have heq := List.find?_some he
  simp only [EncId.equivalent, Bool.and_eq_true, decide_eq_true_eq] at heq
  refine ⟨fun hnil => ?_, fun b hb => ?_⟩
  · rcases List.take_eq_nil_iff.mp hnil with hzero | hnil
    · exact hlen hzero
    · exact hne hnil
  · rw [← heq.1.1.1.1]
    exact hcodec b (List.mem_of_mem_take hb)

/-- The image that is found under a key is shorter than the key says: it was added
again when the key was there. -/
def Short (id : EncId) (c : EncCache) : Prop :=
  ∃ e ∈ c.cache.find? (·.1.equivalent id), e.2.length < e.1.len

theorem get_behind {c : EncCache} {id : EncId} {got : List CodedByte × ℕ}
    (h : c.get id = some got) : got.2 = 0 ↔ ¬c.Short id := by
  obtain ⟨e, he, rfl⟩ := Option.map_eq_some_iff.mp h
  constructor
  · rintro hzero ⟨d, hd, hshort⟩
    obtain rfl := Option.some.inj (he.symm.trans hd)
    exact absurd (Nat.sub_eq_zero_iff_le.mp hzero) (Nat.not_le.mpr hshort)
  · intro hshort
    exact Nat.sub_eq_zero_of_le (Nat.not_lt.mp fun hlt => hshort ⟨e, he, hlt⟩)

end EncCache

/-! ## Phase one: compressing the tiles in parallel -/

/-- One entry of `subrects`, with what its pixels do to the code that looks at
them. -/
structure Tile where
  rect : Rect
  /-- `analyseRect` with a limit on the colours: the size of the palette that is
  left, and the runs. -/
  analyse : ℕ → ℕ × ℤ
  /-- The cache's search comes to the key of the tile, if it is in the map. The keys
  are in no strict weak order, so it may not. -/
  reached : Bool := true
  /-- What `compressOnly` of a codec makes of the tile. -/
  compressOnly : Codec → List UInt8
  /-- What `writeRect` of a codec makes of it. -/
  image : Codec → List UInt8

/-- A task of the `parallel_for` runs `getEncoderType` on its tile, and then looks
at the clock. -/
inductive TaskStep
  | encode (i : ℕ)
  | checkWebpFallback (i : ℕ)
deriving DecidableEq

/-- An order in which the threads get through the tasks. -/
structure Schedule (n : ℕ) where
  steps : List TaskStep
  complete : ∀ i < n, [TaskStep.encode i, .checkWebpFallback i].Sublist steps
  bounded : ∀ i, .checkWebpFallback i ∈ steps → i < n
  once : steps.Nodup

/-- One call of `writeRects`. -/
structure EncodePass where
  params : EncoderParams
  videoModeAvailable : Bool
  /-- `scaledpb` -/
  scaled : Bool
  tiles : List Tile
  schedule : Schedule tiles.length
  /-- The update's start was passed on, as for the main screen. -/
  start : Bool
  webpFallbackUs : ℕ
  /-- The time since the start of the update when the task looks at the clock. -/
  elapsedUs : ℕ → ℕ

/-- What `getEncoderType` returns for a tile. -/
structure Encoded where
  type : EncoderType := encoderSolid
  isWebp : Bool := false
  fromCache : Bool := false
  compressed : List CodedByte := []
  /-- The bytes at the end of `compressed` that lay behind the image in the cache. -/
  behind : ℕ := 0

/-- `compressed.size()` -/
def Encoded.size (e : Encoded) : ℕ := e.compressed.length + e.behind

namespace EncodePass

variable (p : EncodePass) (active : ActiveEncoders) (c : EncCache)

/-- The kind of a tile, by its palette and its runs. -/
def tileType (t : Tile) : EncoderType :=
  let maxColours := min 256 (min (active.get encoderIndexedRLE).maxPaletteSize
    (active.get encoderIndexed).maxPaletteSize)
  let info := t.analyse maxColours
  let useRLE := info.2 ≤ t.rect.area * 2
  if p.scaled || p.params.cp.supportsQOI then encoderFullColour
  else match info.1 with
    | 0 => encoderFullColour
    | 1 => encoderSolid
    | 2 => if useRLE then encoderBitmapRLE else encoderBitmap
    | _ => if useRLE then encoderIndexedRLE else encoderIndexed

/-- What the cache holds for a tile. It is searched under the active full colour
class. -/
def cached (t : Tile) : Option (List CodedByte × ℕ) :=
  if c.enabled && t.reached then c.get (EncId.ofRect active.fullColour t.rect 0) else none

/-- What `compressOnly` of a codec leaves in `compressed`. -/
def compress (codec : Codec) (t : Tile) : List CodedByte :=
  (t.compressOnly codec).map fun b => (codec, b)

/-- The full colour part of `getEncoderType`. -/
def encodeFullColour (webpTookTooLong : Bool) (t : Tile) : Encoded :=
  if p.videoModeAvailable then { type := encoderFullColour }
  else match cached active c t with
    | some (data, behind) =>
      { type := encoderFullColour, fromCache := true, compressed := data, behind := behind }
    | none =>
      if active.fullColour = encoderTightWEBP && !webpTookTooLong then
        { type := encoderFullColour, isWebp := true, compressed := compress .webp t }
      else if active.fullColour = encoderTightQOI then
        { type := encoderFullColour, compressed := compress .qoi t }
      else if active.fullColour = encoderTightJPEG || webpTookTooLong then
        { type := encoderFullColour, compressed := compress .jpeg t }
      else { type := encoderFullColour }

def getEncoderType (webpTookTooLong : Bool) (t : Tile) : Encoded :=
  if p.tileType active t = encoderFullColour then
    p.encodeFullColour active c webpTookTooLong t
  else { type := p.tileType active t }

/-- What the tasks share. -/
structure Phase where
  webpTookTooLong : Bool := false
  encoded : ℕ → Encoded := fun _ => {}

def taskStep (ph : Phase) : TaskStep → Phase
  | .encode i =>
    match p.tiles[i]? with
    | some t =>
      { ph with encoded :=
          Function.update ph.encoded i (p.getEncoderType active c ph.webpTookTooLong t) }
    | none => ph
  | .checkWebpFallback i =>
    if p.start && active.fullColour = encoderTightWEBP && !ph.webpTookTooLong &&
        p.webpFallbackUs < p.elapsedUs i then
      { ph with webpTookTooLong := true }
    else ph

/-- The `parallel_for`. -/
def encodeTiles : Phase := run (p.taskStep active c) {} p.schedule.steps

/-! ## Phase two: writing the tiles -/

end EncodePass

/-- What a rectangle is written as. -/
inductive Written
  /-- A control byte, the length, an image and what was copied from behind it. -/
  | image (control : ℕ) (data : List CodedByte) (behind : ℕ)
  /-- The encoding of a class without an image codec. -/
  | plain (klass : EncoderClass)
  /-- A call of a member the object does not have. -/
  | undefined

/-- `writeOnly` of an encoder object. It is virtual in each of the three classes
that have it, behind the same functions, so a cast between them does not choose
the control byte: the object does. -/
def EncoderClass.writeOnly (klass : EncoderClass) (data : List CodedByte) (behind : ℕ) :
    Written :=
  match klass.codec with
  | some codec => .image codec.control data behind
  | none => .undefined

/-- `writeRect` of an encoder object; an image codec compresses the tile itself. -/
def EncoderClass.writeRect (klass : EncoderClass) (t : Tile) : Written :=
  match klass.codec with
  | some codec => .image codec.control ((t.image codec).map fun b => (codec, b)) 0
  | none => .plain klass

namespace EncodePass

variable (p : EncodePass)

/-- The encoder object `startRect` returns. -/
def startRect (active : ActiveEncoders) (type : EncoderType) (isWebp : Bool) : EncoderClass :=
  if isWebp then encoderTightWEBP else active.get type

def writeSubRect (active : ActiveEncoders) (e : Encoded) (t : Tile) : Written :=
  let encoder := startRect active e.type e.isWebp
  if e.size ≠ 0 then
    if e.isWebp then encoder.writeOnly e.compressed e.behind  -- as TightWEBPEncoder
    else if encoderTightQOI.isSupported p.params then
      encoder.writeOnly e.compressed e.behind                 -- as TightQOIEncoder
    else encoder.writeOnly e.compressed e.behind              -- as TightJPEGEncoder
  else encoder.writeRect t

/-- A freshly compressed tile is offered to the other clients. -/
def addToCache (e : Encoded) (t : Tile) (c : EncCache) : EncCache :=
  if c.enabled && e.size ≠ 0 && !e.fromCache && !encoderTightQOI.isSupported p.params then
    c.add (EncId.ofRect (if e.isWebp then encoderTightWEBP else encoderTightJPEG) t.rect
      e.size) e.compressed
  else c

/-- The loop over the tiles that caches and writes. -/
def writeTiles (active : ActiveEncoders) : List (Encoded × Tile) → EncCache →
    EncCache × List Written
  | [], c => (c, [])
  | (e, t) :: rest, c =>
    let next := writeTiles active rest (p.addToCache e t c)
    (next.1, p.writeSubRect active e t :: next.2)

/-- The active classes once the tiles are compressed. -/
def fallback (active : ActiveEncoders) (webpTookTooLong : Bool) : ActiveEncoders :=
  if webpTookTooLong then { active with fullColour := encoderTightJPEG } else active

def writeRects (active : ActiveEncoders) (c : EncCache) :
    ActiveEncoders × EncCache × List Written :=
  let ph := p.encodeTiles active c
  let active' := fallback active ph.webpTookTooLong
  (active', p.writeTiles active' (p.tiles.zipIdx.map fun ti => (ph.encoded ti.2, ti.1)) c)

end EncodePass

/-! ## The server -/

/-- One `doUpdate` of a client. -/
structure TileUpdate where
  allowLossy : Bool
  /-- The changed pixels were sent as video frames. -/
  videoMode : Bool
  /-- The solid areas, as tiles. -/
  solid : List Tile
  main : EncodePass
  /-- The rendered cursor, unless video was detected in between. -/
  cursor : Option EncodePass
  cursorUntimed : ∀ q, cursor = some q → q.start = false ∧ q.params = main.params

/-- The images an update writes, and the cache it leaves. -/
def TileUpdate.doUpdate (u : TileUpdate) (c : EncCache) : EncCache × List Written :=
  let active := u.main.params.prepareEncoders u.allowLossy
  if u.videoMode then (c, [])
  else
    let solid := u.solid.map (active.get encoderSolid).writeRect
    let main := u.main.writeRects active c
    match u.cursor with
    | none => (main.2.1, solid ++ main.2.2)
    | some q =>
      let cursor := q.writeRects main.1 main.2.1
      (cursor.2.1, solid ++ main.2.2 ++ cursor.2.2)

/-- What happens to the encoders of a server: a new frame empties the cache, and
updates of the clients follow in any order. -/
inductive TileEvent
  | writeUpdate (clients : ℕ)
  | doUpdate (u : TileUpdate)

structure TileServer where
  encCache : EncCache
  /-- Everything that was written, the last update first. -/
  written : List (List Written)

def TileServer.start : TileServer := ⟨⟨false, []⟩, []⟩

def tileStep (s : TileServer) : TileEvent → TileServer
  | .writeUpdate clients =>
    { s with encCache := { s.encCache.clear with enabled := 1 < clients } }
  | .doUpdate u =>
    let next := u.doUpdate s.encCache
    ⟨next.1, next.2 :: s.written⟩

/-! ## Labels -/

/-- The control byte names the codec of every byte behind it. -/
def Written.Labelled : Written → Prop
  | .image control data behind => behind = 0 ∧ ∀ b ∈ data, b.1.control = control
  | .plain _ => True
  | .undefined => False

instance : DecidablePred Written.Labelled
  | .image control data behind =>
    inferInstanceAs (Decidable (behind = 0 ∧ ∀ b ∈ data, b.1.control = control))
  | .plain _ => .isTrue trivial
  | .undefined => .isFalse id

theorem labelled_writeRect (klass : EncoderClass) (t : Tile) : (klass.writeRect t).Labelled := by
  unfold EncoderClass.writeRect
  cases klass.codec with
  | none => trivial
  | some codec =>
    refine ⟨rfl, fun b hb => ?_⟩
    obtain ⟨v, -, rfl⟩ := List.mem_map.mp hb
    rfl

theorem labelled_writeOnly {klass : EncoderClass} {data : List CodedByte} (hne : data ≠ [])
    {codec : Codec} (hdata : ∀ b ∈ data, b.1 = codec) (behind : ℕ) :
    (klass.writeOnly data behind).Labelled ↔ behind = 0 ∧ klass.codec = some codec := by
  unfold EncoderClass.writeOnly
  cases hk : klass.codec with
  | none => exact iff_of_false id (by simp)
  | some own =>
    constructor
    · rintro ⟨hbehind, h⟩
      obtain ⟨b, hb⟩ := List.exists_mem_of_ne_nil data hne
      rw [Codec.control_injective own codec ((h b hb).symm.trans (by rw [hdata b hb]))]
      exact ⟨hbehind, rfl⟩
    · rintro ⟨hbehind, h⟩
      refine ⟨hbehind, fun b hb => ?_⟩
      rw [hdata b hb, Option.some.inj h]

namespace EncodePass

section Labels

variable {p : EncodePass} {active : ActiveEncoders} {c : EncCache}

/-- Where the result of phase one for a tile comes from. -/
inductive Source (p : EncodePass) (active : ActiveEncoders) (c : EncCache) (tooLong : Bool)
    (t : Tile) : Encoded → Prop
  | uncompressed (type : EncoderType) : Source p active c tooLong t { type := type }
  | cached (data : List CodedByte) (behind : ℕ)
      (hfull : p.tileType active t = encoderFullColour)
      (hvideo : p.videoModeAvailable = false)
      (hdata : cached active c t = some (data, behind)) :
      Source p active c tooLong t
        { type := encoderFullColour, fromCache := true, compressed := data, behind := behind }
  | webp (hactive : active.fullColour = encoderTightWEBP) :
      Source p active c tooLong t
        { type := encoderFullColour, isWebp := true, compressed := compress .webp t }
  | qoi (hactive : active.fullColour = encoderTightQOI) :
      Source p active c tooLong t
        { type := encoderFullColour, compressed := compress .qoi t }
  | jpeg (hactive : active.fullColour = encoderTightJPEG ∨ tooLong = true) :
      Source p active c tooLong t
        { type := encoderFullColour, compressed := compress .jpeg t }

theorem source_getEncoderType (tooLong : Bool) (t : Tile) :
    Source p active c tooLong t (p.getEncoderType active c tooLong t) := by
  unfold getEncoderType
  by_cases hfull : p.tileType active t = encoderFullColour
  · rw [if_pos hfull]
    unfold encodeFullColour
    by_cases hvideo : p.videoModeAvailable = true
    · rw [if_pos hvideo]
      exact .uncompressed _
    · rw [if_neg hvideo]
      cases hdata : EncodePass.cached active c t with
      | some got => exact .cached got.1 got.2 hfull (Bool.eq_false_iff.mpr hvideo) hdata
      | none =>
        dsimp only
        split
        · next hwebp =>
            rw [Bool.and_eq_true, decide_eq_true_eq] at hwebp
            exact .webp hwebp.1
        · split
          · next hqoi => exact .qoi hqoi
          · split
            · next hjpeg =>
                rw [Bool.or_eq_true, decide_eq_true_eq] at hjpeg
                exact .jpeg hjpeg
            · exact .uncompressed _
  · rw [if_neg hfull]
    exact .uncompressed _

/-- Nothing lies behind a fresh image. -/
theorem Source.behind {tooLong : Bool} {t : Tile} {e : Encoded}
    (h : Source p active c tooLong t e) (hfresh : e.fromCache = false) : e.behind = 0 := by
  cases h with
  | cached => cases hfresh
  | _ => rfl

theorem Source.size {tooLong : Bool} {t : Tile} {e : Encoded}
    (h : Source p active c tooLong t e) (hfresh : e.fromCache = false) :
    e.size = e.compressed.length := by
  unfold Encoded.size
  rw [h.behind hfresh, Nat.add_zero]

/-! ### What the tasks leave behind -/

/-- The encoding time of the update exceeds its share. -/
def GivesUp (p : EncodePass) (active : ActiveEncoders) : Prop :=
  p.start = true ∧ active.fullColour = encoderTightWEBP ∧
    ∃ i < p.tiles.length, p.webpFallbackUs < p.elapsedUs i

/-- Some tile is taken from the cache. -/
def TakesCached (p : EncodePass) (active : ActiveEncoders) (c : EncCache) : Prop :=
  p.videoModeAvailable = false ∧
    ∃ t ∈ p.tiles, p.tileType active t = encoderFullColour ∧ (cached active c t).isSome

/-- Some tile is taken from the cache, and its image is shorter than the key says. -/
def Overreads (p : EncodePass) (active : ActiveEncoders) (c : EncCache) : Prop :=
  p.videoModeAvailable = false ∧ c.enabled = true ∧
    ∃ t ∈ p.tiles, p.tileType active t = encoderFullColour ∧ t.reached = true ∧
      c.Short (EncId.ofRect active.fullColour t.rect 0)

theorem taskStep_tooLong {ph : Phase} (s : TaskStep) (h : ph.webpTookTooLong = true) :
    (p.taskStep active c ph s).webpTookTooLong = true := by
  cases s with
  | encode i =>
    unfold taskStep
    dsimp only
    split <;> exact h
  | checkWebpFallback i =>
    unfold taskStep
    dsimp only
    split
    · rfl
    · exact h

theorem encodeTiles_tooLong :
    (p.encodeTiles active c).webpTookTooLong = true ↔ p.GivesUp active := by
  constructor
  · have hinv : ∀ ph : Phase, ∀ s ∈ p.schedule.steps,
        (ph.webpTookTooLong = true → p.GivesUp active) →
          (p.taskStep active c ph s).webpTookTooLong = true → p.GivesUp active := by
      intro ph s hs ih
      cases s with
      | encode i =>
        unfold taskStep
        dsimp only
        split <;> exact ih
      | checkWebpFallback i =>
        unfold taskStep
        dsimp only
        split
        · next hslow =>
            simp only [Bool.and_eq_true, decide_eq_true_eq] at hslow
            exact fun _ => ⟨hslow.1.1.1, hslow.1.1.2, i, p.schedule.bounded i hs, hslow.2⟩
        · exact ih
    exact run_invariant_mem (I := fun ph : Phase => ph.webpTookTooLong = true → p.GivesUp active)
      hinv (fun h : false = true => nomatch h)
  · rintro ⟨hstart, hwebp, i, hi, hslow⟩
    have hmem : TaskStep.checkWebpFallback i ∈ p.schedule.steps :=
      (p.schedule.complete i hi).subset (by simp)
    refine run_established (I := fun ph : Phase => ph.webpTookTooLong = true) (fun ph => ?_)
      (fun ph s h => taskStep_tooLong s h) hmem
    by_cases hph : ph.webpTookTooLong = true
    · exact taskStep_tooLong _ hph
    · unfold taskStep
      simp [hstart, hwebp, hslow, hph]

/-- Each tile is encoded under a value of the flag that the flag has, or has left
behind, in the end. -/
theorem encodeTiles_encoded {i : ℕ} {t : Tile} (ht : p.tiles[i]? = some t) :
    ∃ tooLong : Bool, (tooLong = true → (p.encodeTiles active c).webpTookTooLong = true) ∧
      (p.encodeTiles active c).encoded i = p.getEncoderType active c tooLong t := by
  obtain ⟨hi, -⟩ := List.getElem?_eq_some_iff.mp ht
  have hmem : TaskStep.encode i ∈ p.schedule.steps :=
    (p.schedule.complete i hi).subset (by simp)
  refine run_established (I := fun ph : Phase => ∃ tooLong : Bool,
    (tooLong = true → ph.webpTookTooLong = true) ∧
      ph.encoded i = p.getEncoderType active c tooLong t) (fun ph => ?_) (fun ph s => ?_) hmem
  · refine ⟨ph.webpTookTooLong, taskStep_tooLong _, ?_⟩
    unfold taskStep
    simp [ht]
  · rintro ⟨tooLong, hflag, hencoded⟩
    cases s with
    | checkWebpFallback k =>
      refine ⟨tooLong, fun h => taskStep_tooLong _ (hflag h), ?_⟩
      unfold taskStep
      dsimp only
      split <;> exact hencoded
    | encode k =>
      by_cases hk : i = k
      · subst hk
        refine ⟨ph.webpTookTooLong, taskStep_tooLong _, ?_⟩
        unfold taskStep
        simp [ht]
      · refine ⟨tooLong, fun h => taskStep_tooLong _ (hflag h), ?_⟩
        unfold taskStep
        dsimp only
        split
        · exact (Function.update_of_ne hk _ _).trans hencoded
        · exact hencoded

/-! ### What the tiles are written as -/

/-- The classes that fill the cache and the classes it is searched for agree. -/
def Consistent (p : EncodePass) (active : ActiveEncoders) : Prop :=
  active.fullColour = encoderTightQOI → encoderTightQOI.isSupported p.params = true

theorem Consistent.fallback (h : p.Consistent active) (tooLong : Bool) :
    p.Consistent (fallback active tooLong) := by
  cases tooLong with
  | false => exact h
  | true =>
    intro heq
    cases heq

theorem fallback_fullColour (tooLong : Bool) : (fallback active tooLong).fullColour =
    if tooLong = true then encoderTightJPEG else active.fullColour := by
  cases tooLong <;> rfl

theorem writeSubRect_compressed {e : Encoded} {t : Tile} (hne : e.size ≠ 0) :
    p.writeSubRect active e t =
      (startRect active e.type e.isWebp).writeOnly e.compressed e.behind := by
  unfold writeSubRect
  rw [if_pos hne]
  split
  · rfl
  · split <;> rfl

theorem mem_compress {codec : Codec} {t : Tile} {b : CodedByte} (hb : b ∈ compress codec t) :
    b.1 = codec := by
  obtain ⟨v, -, rfl⟩ := List.mem_map.mp hb
  rfl

theorem writeSubRect_empty {e : Encoded} {t : Tile} (hzero : e.size = 0) :
    p.writeSubRect active e t = (startRect active e.type e.isWebp).writeRect t := by
  unfold writeSubRect
  rw [if_neg (not_not.mpr hzero)]

theorem labelled_fresh {e : Encoded} {t : Tile} (hbehind : e.behind = 0) {codec : Codec}
    (hdata : ∀ b ∈ e.compressed, b.1 = codec)
    (hklass : (startRect active e.type e.isWebp).codec = some codec) :
    (p.writeSubRect active e t).Labelled := by
  by_cases hzero : e.size = 0
  · rw [writeSubRect_empty hzero]
    exact labelled_writeRect _ _
  · have hne : e.compressed ≠ [] := by
      intro hnil
      apply hzero
      unfold Encoded.size
      rw [hnil, hbehind]
      rfl
    rw [writeSubRect_compressed hzero]
    exact (labelled_writeOnly hne hdata _).mpr ⟨hbehind, hklass⟩

/-- A tile is labelled as something else only if it was taken from the cache, and
either WEBP was given up later or the image is shorter than its key says. -/
theorem labelled_writeSubRect (hc : c.Coherent) {tooLong final : Bool} {t : Tile} {e : Encoded}
    (hsource : Source p active c tooLong t e) (hflag : tooLong = true → final = true)
    (hfinal : final = true → active.fullColour = encoderTightWEBP) :
    (p.writeSubRect (fallback active final) e t).Labelled ↔
      e.behind = 0 ∧ ¬(final = true ∧ e.fromCache = true) := by
  cases hsource with
  | uncompressed type =>
    refine iff_of_true ?_ ⟨rfl, fun h => nomatch h.2⟩
    rw [writeSubRect_empty rfl]
    exact labelled_writeRect _ _
  | cached data behind hfull hvideo hdata =>
    unfold EncodePass.cached at hdata
    split at hdata
    · obtain ⟨hdne, hcodec⟩ := hc.get hdata
      obtain ⟨b, hb⟩ := List.exists_mem_of_ne_nil data hdne
      have hactive : active.fullColour.codec = some b.1 := hcodec b hb
      have hsame : ∀ d ∈ data, d.1 = b.1 := fun d hd =>
        Option.some.inj ((hcodec d hd).symm.trans (hcodec b hb))
      have hsize : Encoded.size ⟨encoderFullColour, false, true, data, behind⟩ ≠ 0 :=
        (Nat.add_pos_left (List.length_pos_of_ne_nil hdne) behind).ne'
      rw [writeSubRect_compressed hsize, labelled_writeOnly hdne hsame]
      refine and_congr_right fun _ => ?_
      show (fallback active final).fullColour.codec = some b.1 ↔ _
      rw [fallback_fullColour]
      by_cases hfin : final = true
      · -- the image is WEBP, and the object that writes it is the JPEG encoder
        rw [if_pos hfin]
        refine iff_of_false (fun hjpeg => ?_) (fun h => h ⟨hfin, rfl⟩)
        rw [hfinal hfin] at hactive
        cases hactive.trans hjpeg.symm
      · rw [if_neg hfin]
        exact iff_of_true hactive (fun h => hfin h.1)
    · cases hdata
  | webp =>
    exact iff_of_true (labelled_fresh rfl (fun b hb => mem_compress hb) rfl)
      ⟨rfl, fun h => nomatch h.2⟩
  | qoi hactive =>
    refine iff_of_true (labelled_fresh rfl (fun b hb => mem_compress hb) ?_)
      ⟨rfl, fun h => nomatch h.2⟩
    show (fallback active final).fullColour.codec = some .qoi
    have hfin : final ≠ true := fun h => nomatch hactive.symm.trans (hfinal h)
    rw [fallback_fullColour, if_neg hfin, hactive]
    rfl
  | jpeg hactive =>
    refine iff_of_true (labelled_fresh rfl (fun b hb => mem_compress hb) ?_)
      ⟨rfl, fun h => nomatch h.2⟩
    show (fallback active final).fullColour.codec = some .jpeg
    rw [fallback_fullColour]
    by_cases hfin : final = true
    · rw [if_pos hfin]
      rfl
    · rw [if_neg hfin]
      rcases hactive with hjpeg | htoo
      · rw [hjpeg]
        rfl
      · exact absurd (hflag htoo) hfin

/-- What is put into the cache is filed under the codec that made it. -/
theorem coherent_addToCache {c₀ : EncCache} (hc : c.Coherent) (hp : p.Consistent active)
    {tooLong : Bool} {t : Tile} {e : Encoded} (hsource : Source p active c₀ tooLong t e) :
    (p.addToCache e t c).Coherent := by
  unfold addToCache
  split
  · next hadd =>
      simp only [Bool.and_eq_true, decide_eq_true_eq, Bool.not_eq_true'] at hadd
      obtain ⟨⟨⟨-, hne⟩, hfresh⟩, hqoi⟩ := hadd
      refine hc.add hne (fun hnil => ?_) fun b hb => ?_
      · rw [hsource.size hfresh, hnil] at hne
        exact hne rfl
      cases hsource with
      | uncompressed => cases hb
      | cached => cases hfresh
      | webp => exact congrArg some (mem_compress hb).symm
      | jpeg => exact congrArg some (mem_compress hb).symm
      | qoi hactive =>
        rw [hp hactive] at hqoi
        cases hqoi
  · exact hc

theorem writeTiles_spec {c₀ : EncCache} (active' : ActiveEncoders) (hp : p.Consistent active) :
    ∀ (tiles : List (Encoded × Tile)) (c : EncCache), c.Coherent →
      (∀ et ∈ tiles, ∃ tooLong, Source p active c₀ tooLong et.2 et.1) →
      (p.writeTiles active' tiles c).1.Coherent ∧
        (p.writeTiles active' tiles c).2 = tiles.map fun et => p.writeSubRect active' et.1 et.2
  | [], c, hc, _ => ⟨hc, rfl⟩
  | (e, t) :: rest, c, hc, hsources => by
    obtain ⟨tooLong, hsource⟩ := hsources (e, t) List.mem_cons_self
    obtain ⟨hcoherent, hwritten⟩ := writeTiles_spec active' hp rest (p.addToCache e t c)
      (coherent_addToCache hc hp hsource) (fun et het => hsources et (List.mem_cons_of_mem _ het))
    refine ⟨hcoherent, ?_⟩
    rw [List.map_cons, ← hwritten]
    rfl

/-- The tiles in the form in which phase two gets them. -/
theorem mem_encoded {et : Encoded × Tile} :
    et ∈ p.tiles.zipIdx.map (fun ti => ((p.encodeTiles active c).encoded ti.2, ti.1)) ↔
      ∃ i, p.tiles[i]? = some et.2 ∧ (p.encodeTiles active c).encoded i = et.1 := by
  constructor
  · intro h
    obtain ⟨⟨t, i⟩, hti, rfl⟩ := List.mem_map.mp h
    exact ⟨i, List.mk_mem_zipIdx_iff_getElem?.mp hti, rfl⟩
  · rintro ⟨i, ht, he⟩
    exact List.mem_map.mpr ⟨(et.2, i), List.mk_mem_zipIdx_iff_getElem?.mpr ht, by rw [he]⟩

theorem fromCache_getEncoderType (tooLong : Bool) (t : Tile) :
    (p.getEncoderType active c tooLong t).fromCache = true ↔
      p.videoModeAvailable = false ∧ p.tileType active t = encoderFullColour ∧
        (cached active c t).isSome := by
  constructor
  · intro h
    have hsource : Source p active c tooLong t _ := source_getEncoderType tooLong t
    generalize p.getEncoderType active c tooLong t = e at h hsource
    cases hsource with
    | cached data behind hfull hvideo hdata => exact ⟨hvideo, hfull, by rw [hdata]; rfl⟩
    | uncompressed => cases h
    | webp => cases h
    | qoi => cases h
    | jpeg => cases h
  · rintro ⟨hvideo, hfull, hsome⟩
    obtain ⟨data, hdata⟩ := Option.isSome_iff_exists.mp hsome
    unfold getEncoderType encodeFullColour
    rw [if_pos hfull, hvideo, if_neg Bool.false_ne_true, hdata]

/-- Bytes from behind an image reach exactly a tile whose image is too short. -/
theorem behind_getEncoderType (tooLong : Bool) (t : Tile) :
    (p.getEncoderType active c tooLong t).behind = 0 ↔
      ¬(p.videoModeAvailable = false ∧ c.enabled = true ∧ p.tileType active t = encoderFullColour ∧
        t.reached = true ∧ c.Short (EncId.ofRect active.fullColour t.rect 0)) := by
  by_cases hcache : (p.getEncoderType active c tooLong t).fromCache = true
  · have hsource : Source p active c tooLong t _ := source_getEncoderType tooLong t
    generalize p.getEncoderType active c tooLong t = e at hcache hsource
    cases hsource with
    | cached data behind hfull hvideo hdata =>
      unfold EncodePass.cached at hdata
      split at hdata
      · next hsearched =>
          rw [Bool.and_eq_true] at hsearched
          rw [EncCache.get_behind hdata]
          exact not_congr ⟨fun h => ⟨hvideo, hsearched.1, hfull, hsearched.2, h⟩,
            fun h => h.2.2.2.2⟩
      · cases hdata
    | uncompressed => cases hcache
    | webp => cases hcache
    | qoi => cases hcache
    | jpeg => cases hcache
  · refine iff_of_true ((source_getEncoderType tooLong t).behind (Bool.eq_false_iff.mpr hcache)) ?_
    rintro ⟨hvideo, hon, hfull, hreached, e, he, -⟩
    refine hcache ((fromCache_getEncoderType tooLong t).mpr ⟨hvideo, hfull, ?_⟩)
    unfold EncodePass.cached EncCache.get
    rw [hon, hreached, Bool.and_self, if_pos rfl, Option.mem_def.mp he]
    rfl

/-- **One call of `writeRects`.** The cache stays coherent, and every image is
labelled with its codec unless a tile comes from the cache in a call that gives
up on WEBP, or its image there is too short. -/
theorem writeRects_spec (hc : c.Coherent) (hp : p.Consistent active) :
    (p.writeRects active c).2.1.Coherent ∧
      ((∀ w ∈ (p.writeRects active c).2.2, w.Labelled) ↔
        ¬p.Overreads active c ∧ ¬(p.GivesUp active ∧ p.TakesCached active c)) := by
  have hencodedAt : ∀ {i : ℕ} {t : Tile}, p.tiles[i]? = some t → ∃ tooLong : Bool,
      (tooLong = true → (p.encodeTiles active c).webpTookTooLong = true) ∧
        (p.encodeTiles active c).encoded i = p.getEncoderType active c tooLong t :=
    encodeTiles_encoded
  have hsources : ∀ et ∈ p.tiles.zipIdx.map
      (fun ti => ((p.encodeTiles active c).encoded ti.2, ti.1)),
      ∃ tooLong, Source p active c tooLong et.2 et.1 := by
    intro et het
    obtain ⟨i, ht, he⟩ := mem_encoded.mp het
    obtain ⟨tooLong, -, hencoded⟩ := hencodedAt ht
    exact ⟨tooLong, he ▸ hencoded ▸ source_getEncoderType tooLong et.2⟩
  obtain ⟨hcoherent, hwritten⟩ := writeTiles_spec
    (fallback active (p.encodeTiles active c).webpTookTooLong) hp _ c hc hsources
  refine ⟨hcoherent, ?_⟩
  have hout : (p.writeRects active c).2.2 = _ := hwritten
  have hfinal : (p.encodeTiles active c).webpTookTooLong = true →
      active.fullColour = encoderTightWEBP := fun h => (encodeTiles_tooLong.mp h).2.1
  rw [hout, List.forall_mem_map]
  constructor
  · intro hall
    have hlabel : ∀ t ∈ p.tiles, ∃ tooLong : Bool,
        (p.getEncoderType active c tooLong t).behind = 0 ∧
          ¬((p.encodeTiles active c).webpTookTooLong = true ∧
            (p.getEncoderType active c tooLong t).fromCache = true) := by
      intro t ht
      obtain ⟨i, hi⟩ := List.mem_iff_getElem?.mp ht
      obtain ⟨tooLong, hflag, hencoded⟩ := hencodedAt hi
      exact ⟨tooLong, (labelled_writeSubRect hc (source_getEncoderType tooLong t) hflag hfinal).mp
        (hall (_, t) (mem_encoded.mpr ⟨i, hi, hencoded⟩))⟩
    constructor
    · rintro ⟨hvideo, hon, t, ht, hfull, hreached, hshort⟩
      obtain ⟨tooLong, hbehind, -⟩ := hlabel t ht
      exact (behind_getEncoderType tooLong t).mp hbehind ⟨hvideo, hon, hfull, hreached, hshort⟩
    · rintro ⟨hgives, hvideo, t, ht, hfull, hsome⟩
      obtain ⟨tooLong, -, hgood⟩ := hlabel t ht
      refine hgood ⟨encodeTiles_tooLong.mpr hgives, ?_⟩
      exact (fromCache_getEncoderType tooLong t).mpr ⟨hvideo, hfull, hsome⟩
  · rintro ⟨hlong, hgood⟩ ⟨e, t⟩ het
    obtain ⟨i, ht, rfl⟩ := mem_encoded.mp het
    have hmem := List.mem_of_getElem? ht
    obtain ⟨tooLong, hflag, hencoded⟩ := hencodedAt ht
    rw [hencoded]
    refine (labelled_writeSubRect hc (source_getEncoderType tooLong t) hflag hfinal).mpr ⟨?_, ?_⟩
    · rw [behind_getEncoderType]
      rintro ⟨hvideo, hon, hfull, hreached, hshort⟩
      exact hlong ⟨hvideo, hon, t, hmem, hfull, hreached, hshort⟩
    · rintro ⟨htoo, hcache⟩
      obtain ⟨hvideo, hfull, hsome⟩ := (fromCache_getEncoderType tooLong t).mp hcache
      exact hgood ⟨encodeTiles_tooLong.mp htoo, hvideo, t, hmem, hfull, hsome⟩

end Labels

end EncodePass

/-! ## Updates -/

/-- The encoding time of the main screen is exceeded by an update that takes a tile
from the cache under WEBP. -/
def TileUpdate.MixesCodecs (u : TileUpdate) (c : EncCache) : Prop :=
  let active := u.main.params.prepareEncoders u.allowLossy
  u.videoMode = false ∧ u.main.GivesUp active ∧ u.main.TakesCached active c

/-- A tile of the main screen, or of the cursor behind it, is taken from the cache
where its image is shorter than the key says. -/
def TileUpdate.Overreads (u : TileUpdate) (c : EncCache) : Prop :=
  let active := u.main.params.prepareEncoders u.allowLossy
  let main := u.main.writeRects active c
  u.videoMode = false ∧
    (u.main.Overreads active c ∨ ∃ q ∈ u.cursor, q.Overreads main.1 main.2.1)

theorem doUpdate_spec {u : TileUpdate} {c : EncCache} (hc : c.Coherent) :
    (u.doUpdate c).1.Coherent ∧
      ((∀ w ∈ (u.doUpdate c).2, w.Labelled) ↔ ¬u.Overreads c ∧ ¬u.MixesCodecs c) := by
  have hp : u.main.Consistent (u.main.params.prepareEncoders u.allowLossy) :=
    EncoderParams.prepareEncoders_qoi
  obtain ⟨hcoherent, hmain⟩ := EncodePass.writeRects_spec hc hp
  have hsolid : ∀ w ∈ u.solid.map ((u.main.params.prepareEncoders u.allowLossy).get
      encoderSolid).writeRect, w.Labelled := by
    intro w hw
    obtain ⟨t, -, rfl⟩ := List.mem_map.mp hw
    exact labelled_writeRect _ _
  unfold TileUpdate.doUpdate TileUpdate.MixesCodecs TileUpdate.Overreads
  by_cases hvideo : u.videoMode = true
  · dsimp only
    rw [if_pos hvideo, hvideo]
    exact ⟨hc, iff_of_true (fun w hw => nomatch hw)
      ⟨fun h => Bool.noConfusion h.1, fun h => Bool.noConfusion h.1⟩⟩
  · have hoff : u.videoMode = false := Bool.eq_false_iff.mpr hvideo
    dsimp only
    rw [if_neg hvideo]
    simp only [hoff, true_and]
    cases hcursor : u.cursor with
    | none =>
      refine ⟨hcoherent, ?_⟩
      show (∀ w ∈ _ ++ _, Written.Labelled w) ↔ _
      rw [List.forall_mem_append, and_iff_right hsolid, hmain]
      simp only [Option.not_mem_none, false_and, exists_false, or_false]
    | some q =>
      obtain ⟨huntimed, hparams⟩ := u.cursorUntimed q hcursor
      have hq : q.Consistent
          (u.main.writeRects (u.main.params.prepareEncoders u.allowLossy) c).1 := by
        have hfall := hp.fallback (u.main.encodeTiles
          (u.main.params.prepareEncoders u.allowLossy) c).webpTookTooLong
        unfold EncodePass.Consistent
        rw [hparams]
        exact hfall
      obtain ⟨hafter, hlabels⟩ := EncodePass.writeRects_spec hcoherent hq
      -- the cursor is not timed, so its call never gives up
      have hgives : ∀ active, ¬q.GivesUp active := fun active h => by
        cases huntimed.symm.trans h.1
      refine ⟨hafter, ?_⟩
      show (∀ w ∈ _ ++ _ ++ _, Written.Labelled w) ↔ _
      rw [List.forall_mem_append, List.forall_mem_append, and_iff_right hsolid, hmain, hlabels]
      simp only [Option.mem_some_iff, exists_eq_left', not_or, hgives, false_and,
        not_false_eq_true, and_true]
      exact and_right_comm

/-! ## Runs -/

/-- Everything a server has written names its codec. -/
def TileServer.Labelled (s : TileServer) : Prop :=
  ∀ update ∈ s.written, ∀ w ∈ update, w.Labelled

instance : DecidablePred TileServer.Labelled :=
  fun s => inferInstanceAs (Decidable (∀ update ∈ s.written, ∀ w ∈ update, Written.Labelled w))

/-- The event does not mix codecs in the state it meets, nor read behind an image. -/
def KeepsCodecs (s : TileServer) : TileEvent → Prop
  | .writeUpdate _ => True
  | .doUpdate u => ¬u.Overreads s.encCache ∧ ¬u.MixesCodecs s.encCache

theorem tileStep_spec {s : TileServer} (hc : s.encCache.Coherent) (e : TileEvent) :
    (tileStep s e).encCache.Coherent ∧
      ((tileStep s e).Labelled ↔ s.Labelled ∧ KeepsCodecs s e) := by
  cases e with
  | writeUpdate clients => exact ⟨(fun _ he => nomatch he), (and_iff_left trivial).symm⟩
  | doUpdate u =>
    obtain ⟨hcoherent, hlabels⟩ := doUpdate_spec (u := u) hc
    refine ⟨hcoherent, ?_⟩
    show (∀ update ∈ _ :: _, ∀ w ∈ update, Written.Labelled w) ↔ _
    rw [List.forall_mem_cons, hlabels]
    exact and_comm

theorem labelled_run : ∀ (events : List TileEvent) (s : TileServer), s.encCache.Coherent →
    ((run tileStep s events).Labelled ↔ s.Labelled ∧ Guarded tileStep KeepsCodecs s events)
  | [], s, _ => (and_iff_left trivial).symm
  | e :: events, s, hc => by
    obtain ⟨hcoherent, hstep⟩ := tileStep_spec hc e
    rw [run_cons, labelled_run events _ hcoherent, hstep, and_assoc]
    rfl

/-- A tile of many colours, as each codec might compress it. -/
def photo : Tile where
  rect := ⟨(0, 0), (16, 16)⟩
  analyse := fun _ => (0, 0)
  compressOnly := fun
    | .jpeg => [0xff, 0xd8]
    | .webp => [0x52, 0x49]
    | .qoi => [0x71, 0x6f]
  image := fun _ => []

/-- An update of a client with WEBP whose only tile is the photo. -/
def photoUpdate (elapsedUs : ℕ) : TileUpdate where
  allowLossy := true
  videoMode := false
  solid := []
  main :=
    { params :=
        { cp := { encodings := [encodingTight], supportsWEBP := true }
          preferred := encodingTight, bpp := 32 }
      videoModeAvailable := false
      scaled := false
      tiles := [photo]
      schedule :=
        { steps := [.encode 0, .checkWebpFallback 0]
          complete := by decide
          bounded := by simp
          once := by decide }
      start := true
      webpFallbackUs := 5000
      elapsedUs := fun _ => elapsedUs }
  cursor := none
  cursorUntimed := fun _ h => nomatch h

end KasmVNC.Rfb
