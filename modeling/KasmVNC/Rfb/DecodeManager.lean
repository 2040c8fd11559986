import KasmVNC.Rfb.CopyRect
import KasmVNC.Rfb.Rre
import KasmVNC.Rfb.Tight
import KasmVNC.Rfb.ZrleRoundTrip

/-!
# The queue of rectangles of the client

The main thread copies the bytes of a rectangle from the connection and puts them on a
queue. Workers take entries from the queue and decode them, and `findEntry` decides which
ones: an entry may overtake those before it if their decoders allow it and no pixels are
shared. With a single processor there are no workers, and the main thread decodes each
rectangle when it has read it.

What the threads share is the framebuffer and the zlib streams of the decoders; each
critical section and each decoding is one event.
-/

namespace KasmVNC.Rfb

open KasmVNC.Lib Reader

variable {width : PixelWidth}

/-! ## Decoders -/

inductive DecoderFlags
  | plain
  | ordered
  | partiallyOrdered
deriving DecidableEq

/-- The encodings that are `supported`. -/
inductive RectEncoding
  | raw
  | copyRect
  | rre
  | hextile
  | zrle
  | tight
deriving DecidableEq, Repr

def RectEncoding.flags : RectEncoding → DecoderFlags
  | raw | copyRect | rre | hextile => .plain
  | zrle => .ordered
  | tight => .partiallyOrdered

/-- What stays the same while rectangles are decoded. -/
structure DecodeParams (width : PixelWidth) where
  pf : PixelFormatOf width
  filters : OtherFilters width.bytes
  Z : Zlib
  fbWidth : BitVec 16
  fbHeight : BitVec 16

/-- `pb->getRect()` -/
def DecodeParams.fbRect (d : DecodeParams width) : Rect :=
  ⟨(0, 0), (d.fbWidth.toNat, d.fbHeight.toNat)⟩

/-- The framebuffer, and the zlib streams of `ZRLEDecoder` and `TightDecoder`. -/
structure DecodeState (d : DecodeParams width) where
  frame : Point → RawPixel width.bytes
  zrle : d.Z.Inflate
  tight : Fin 4 → d.Z.Inflate

/-- The bytes of `CopyRectDecoder`: where the source is. -/
def copyRectSource : Reader Empty Point := do
  let srcX ← readU16
  let srcY ← readU16
  pure (srcX.toNat, srcY.toNat)

variable (d : DecodeParams width)

/-- `readRect` of each decoder: the bytes it copies. -/
def readRect (r : Rect) : RectEncoding → Reader Empty (List Byte)
  | .raw => readBytes (r.rows * r.cols * width.bytes)
  | .copyRect => readBytes 4
  | .rre => rreReadRect width.bytes
  | .hextile => hextileReadRect width.bytes r
  | .zrle => zrleReadRect
  | .tight => tightReadRect d.pf r.cols r.rows

/-- `RawDecoder::decodeRect` -/
def rawDecode (r : Rect) (frame : Point → RawPixel width.bytes) :
    Reader Empty (Point → RawPixel width.bytes) := do
  let pixels ← readMany (readPixel width.bytes) (r.rows * r.cols)
  pure (imageRect r (bufferBlock r.cols pixels) frame)

/-- `CopyRectDecoder::decodeRect` -/
def copyRectDecode (r : Rect) (frame : Point → RawPixel width.bytes) :
    Reader Empty (Point → RawPixel width.bytes) := do
  let src ← copyRectSource
  match copyRect d.fbRect r (r.tl - src) frame with
  | .ok frame => pure frame
  | .error e => fail e.str

/-- `decodeRect` of each decoder. -/
def decodeRect (r : Rect) (s : DecodeState d) : RectEncoding → Reader Empty (DecodeState d)
  | .raw => do
      let frame ← rawDecode r s.frame
      pure { s with frame := frame }
  | .copyRect => do
      let frame ← copyRectDecode d r s.frame
      pure { s with frame := frame }
  | .rre => do
      let frame ← rreDecode width.bytes r s.frame
      pure { s with frame := frame }
  | .hextile => do
      let frame ← hextileDecode width.bytes r s.frame
      pure { s with frame := frame }
  | .zrle => do
      let res ← zrleDecode (zrleReadPixel d.pf) d.Z s.zrle r s.frame
      pure { s with frame := res.1, zrle := res.2 }
  | .tight => do
      let res ← tightDecodeRect d.pf d.filters d.Z s.tight r s.frame
      pure { s with frame := res.1, tight := res.2 }

/-! ## Entries -/

/-- Where a worker is with an entry. -/
inductive EntryPhase
  | waiting
  | decoding
  | decoded
deriving DecidableEq

structure QueueEntry where
  phase : EntryPhase
  rect : Rect
  encoding : RectEncoding
  bufferStream : List Byte
deriving DecidableEq

/-- A coordinate in the 16 bits of the region library. -/
def short (v : ℤ) : ℤ := (BitVec.ofInt 16 v).toInt

/-- `Region::reset`. A box whose corners come out in the wrong order overlaps no other. -/
def Region.reset (r : Rect) : Region :=
  if r.isEmpty then ∅
  else ofRect ⟨(short r.tl.1, short r.tl.2), (short r.br.1, short r.br.2)⟩

namespace QueueEntry

def active (e : QueueEntry) : Bool := e.phase ≠ .waiting

/-- The rectangles that `getAffectedRegion` puts together: CopyRect has two. -/
def areas (e : QueueEntry) : List Rect :=
  if e.encoding = .copyRect then
    match copyRectSource ⟨e.bufferStream, []⟩ with
    | .ok (src, _) => [e.rect, e.rect.translate (src - e.rect.tl)]
    | .error _ => [e.rect]
  else [e.rect]

/-- The field that `getAffectedRegion` has set, from bytes that are still the same. -/
def affectedRegion (e : QueueEntry) : Region :=
  e.areas.foldr (fun r region => Region.reset r ∪ region) ∅

/-- `decodeRect` on the bytes of the entry. -/
def decode (e : QueueEntry) (s : DecodeState d) : Except String (DecodeState d) :=
  (decodeRect d e.rect s e.encoding ⟨e.bufferStream, []⟩).map Prod.fst

end QueueEntry

/-- The zlib streams that `TightDecoder::doRectsConflict` sees a rectangle use or reset. -/
def tightStreamBits (comp_ctl : Byte) : Byte :=
  if comp_ctl &&& 0x80 = 0 then comp_ctl ||| (1 : Byte) <<< ((comp_ctl >>> 4) &&& 0x03).toNat
  else comp_ctl

/-- `doRectsConflict`, which only `TightDecoder` has. -/
def doRectsConflict (a b : QueueEntry) : Bool :=
  (tightStreamBits (a.bufferStream.headD 0) &&& 0x0f) &&&
    (tightStreamBits (b.bufferStream.headD 0) &&& 0x0f) ≠ 0

/-- The body of the loop in `findEntry`, for an entry with others before it. -/
def mayTake (before : List QueueEntry) (lockedRegion : Region) (entry : QueueEntry) : Bool :=
  !entry.active &&
  !(entry.encoding.flags = .ordered && before.any fun e => entry.encoding = e.encoding) &&
  !(entry.encoding.flags = .partiallyOrdered &&
    before.any fun e => entry.encoding = e.encoding && doRectsConflict entry e) &&
  lockedRegion ∩ entry.affectedRegion = ∅

/-- The loop over the queue. -/
def findEntryLoop (before : List QueueEntry) (lockedRegion : Region) : List QueueEntry → Option ℕ
  | [] => none
  | entry :: rest =>
    if mayTake before lockedRegion entry then some before.length
    else findEntryLoop (before ++ [entry]) (lockedRegion ∪ entry.affectedRegion) rest

/-- `findEntry`: the place of the entry in the queue. -/
def findEntry (workQueue : List QueueEntry) : Option ℕ :=
  match workQueue with
  | [] => none
  | front :: _ => if !front.active then some 0 else findEntryLoop [] ∅ workQueue

/-! ## The main thread and the workers -/

/-- The header of a rectangle. -/
structure RectHeader where
  x : BitVec 16
  y : BitVec 16
  w : BitVec 16
  h : BitVec 16
  encoding : RectEncoding
deriving DecidableEq

def RectHeader.rect (hd : RectHeader) : Rect :=
  Rect.ofXYWH hd.x.toNat hd.y.toNat hd.w.toNat hd.h.toNat

/-- The check in `CMsgReader::readRect`. -/
def checkRect (r : Rect) : Except String Unit :=
  if r.br.1 > d.fbRect.br.1 ∨ r.br.2 > d.fbRect.br.2 then .error "Rect too big" else .ok ()

/-- The decoder reads the bytes of a rectangle. -/
def readEntry (hd : RectHeader) (input : List Byte) : Except String (QueueEntry × List Byte) :=
  (readRect d hd.rect hd.encoding ⟨input, []⟩).map fun res =>
    (⟨.waiting, hd.rect, hd.encoding, res.1⟩, res.2.input)

/-- The bytes still to come from the connection, and what is decoded. -/
structure Decoding where
  input : List Byte
  state : DecodeState d

variable {d}

/-- `DecodeManager::decodeRect` without threads. -/
def Decoding.decodeRect (s : Decoding d) (hd : RectHeader) : Except String (Decoding d) := do
  checkRect d hd.rect
  let (entry, input) ← readEntry d hd s.input
  let state ← entry.decode d s.state
  pure ⟨input, state⟩

variable (d) in
structure DecodeManager extends Decoding d where
  workQueue : List QueueEntry
  threadException : Option String

namespace DecodeManager

variable (m : DecodeManager d)

def throwThreadException : Except String Unit :=
  match m.threadException with
  | some msg => .error msg
  | none => .ok ()

/-- The first exception is kept. -/
def setThreadException (msg : String) : DecodeManager d :=
  { m with
    threadException := m.threadException.or (some s!"Exception on worker thread: {msg}") }

/-- `decodeRect` with threads. -/
def decodeRect (hd : RectHeader) : Except String (DecodeManager d) := do
  checkRect d hd.rect
  m.throwThreadException
  let (entry, input) ← readEntry d hd m.input
  pure { m with input := input, workQueue := m.workQueue ++ [entry] }

def setPhase (i : ℕ) (phase : EntryPhase) : DecodeManager d :=
  { m with workQueue := m.workQueue.modify i fun e => { e with phase := phase } }

/-- What the threads do. The workers are told apart by the place of their entry. -/
inductive Event
  /-- The main thread gets a rectangle. -/
  | decodeRect (hd : RectHeader)
  /-- The main thread waits for the queue to be empty. -/
  | flush
  /-- A worker looks for an entry and makes it its own. -/
  | findEntry
  /-- A worker decodes its entry. -/
  | decode (i : ℕ)
  /-- A worker removes its entry from the queue. -/
  | remove (i : ℕ)

/-- Why an event does not happen. -/
inductive Stop
  | waits
  | throws (msg : String)

def step : Event → Except Stop (DecodeManager d)
  | .decodeRect hd => (m.decodeRect hd).mapError .throws
  | .flush =>
    if m.workQueue = [] then m.throwThreadException.mapError .throws |>.map fun _ => m
    else .error .waits
  | .findEntry =>
    match Rfb.findEntry m.workQueue with
    | none => .error .waits
    | some i => .ok (m.setPhase i .decoding)
  | .decode i =>
    match m.workQueue[i]? with
    | some ⟨.decoding, rect, encoding, bytes⟩ =>
      match QueueEntry.decode d ⟨.decoding, rect, encoding, bytes⟩ m.state with
      | .ok state => .ok { m.setPhase i .decoded with state := state }
      | .error msg => .ok ((m.setPhase i .decoded).setThreadException msg)
    | _ => .error .waits
  | .remove i =>
    match m.workQueue[i]? with
    | some ⟨.decoded, _, _, _⟩ => .ok { m with workQueue := m.workQueue.eraseIdx i }
    | _ => .error .waits

/-- The rectangles of a run. -/
def requests : List Event → List RectHeader
  | [] => []
  | .decodeRect hd :: es => hd :: requests es
  | _ :: es => requests es

/-- Nothing is queued yet. -/
def start (s : Decoding d) : DecodeManager d := { s with workQueue := [], threadException := none }

end DecodeManager

end KasmVNC.Rfb
