import KasmVNC.Lib.Strides
import KasmVNC.Rfb.CopyRect
import KasmVNC.Rfb.ScrollHasher
import KasmVNC.Rfb.UpdateTracker

/-!
# Comparing the framebuffer with its last state

`ComparingUpdateTracker` keeps a copy of the framebuffer as the clients have it and
reduces the changed region to the blocks that differ. If much has changed, it also
looks for blocks that are somewhere else in the old framebuffer, and emits copies
for them. A source is taken from the old framebuffer as it was before all copies,
while the copies are executed one after another, so nothing that a copy has
overwritten may be a source afterwards.
-/

namespace KasmVNC.Rfb

open KasmVNC.Lib

abbrev BlockSize : ℤ := 64

/-- A framebuffer: the pixel at `(x, y)` has the offset `y * stride + x`. The width
is an `int`. -/
structure PixelBuffer (C : Type*) where
  width : ℕ
  height : ℕ
  stride : ℕ
  data : ℕ → C
  width_lt : width < 2 ^ 31

namespace PixelBuffer

variable {C : Type*} (fb : PixelBuffer C)

def getRect : Rect := ⟨(0, 0), (fb.width, fb.height)⟩

def offset (p : Point) : ℕ := p.2.toNat * fb.stride + p.1.toNat

def pixel (p : Point) : C := fb.data (fb.offset p)

end PixelBuffer

/-- The copy a client executes for a copy-pass rectangle. -/
def CopyPassRect.move (c : CopyPassRect) : Move Point :=
  ⟨Region.ofRect c.rect, (c.rect.tl.1 - c.srcX, c.rect.tl.2 - c.srcY)⟩

/-! ## Merging -/

/-- Merge the last two rectangles if one continues the other downwards. -/
def mergeLastTwo (copyPassRects : List CopyPassRect) : List CopyPassRect :=
  match copyPassRects.reverse with
  | cur :: prev :: rest =>
    if prev.rect.br.2 = cur.rect.tl.2 ∧ prev.rect.tl.1 = cur.rect.tl.1 ∧
        prev.rect.br.1 = cur.rect.br.1 ∧ prev.srcX = cur.srcX ∧
        prev.srcY + prev.rect.height = cur.srcY then
      rest.reverse ++ [{ prev with
        rect := ⟨prev.rect.tl, (prev.rect.br.1, prev.rect.br.2 + cur.rect.height)⟩ }]
    else copyPassRects
  | _ => copyPassRects

/-- The last rectangle is continued to the right. -/
def Continues (back : CopyPassRect) (y blockLeft : ℤ) (m : Match) : Prop :=
  back.rect.tl.2 = y ∧ back.rect.br.1 = blockLeft ∧ back.rect.br.2 = y + m.lines ∧
    back.srcX + back.rect.width = m.x ∧ back.srcY = m.y

instance (back : CopyPassRect) (y blockLeft : ℤ) (m : Match) :
    Decidable (Continues back y blockLeft m) := inferInstanceAs (Decidable (_ ∧ _))

def tryMerge (copyPassRects : List CopyPassRect) (y blockLeft blockRight : ℤ) (m : Match) :
    List CopyPassRect :=
  let cp : CopyPassRect := ⟨⟨(blockLeft, y), (blockRight, y + m.lines)⟩, m.x, m.y⟩
  match copyPassRects.reverse with
  | back :: rest =>
    if Continues back y blockLeft m then
      rest.reverse ++ [{ back with
        rect := ⟨back.rect.tl, (back.rect.br.1 + ScrollBlockSize, back.rect.br.2)⟩ }]
    else mergeLastTwo copyPassRects ++ [cp]
  | [] => [cp]

/-! ## Comparing -/

/-- What the loops of `compareRect` work on. -/
structure CompareState (C : Type*) (dir : ScrollDirection) where
  oldFb : Point → C
  scrollHasher : ScrollHasher C dir
  copyPassRects : List CopyPassRect
  newChanged : Region
  changedBlocks : List Rect

namespace CompareState

variable {C : Type*} {dir : ScrollDirection}

def pushChanged (st : CompareState C dir) (r : Rect) : CompareState C dir :=
  { st with changedBlocks := st.changedBlocks ++ [r] }

/-- A source was found for some lines of a block. -/
def pushCopy (st : CompareState C dir) (block : Rect) (y : ℤ) (m : Match) : CompareState C dir :=
  { st with
    copyPassRects := tryMerge st.copyPassRects y block.tl.1 block.br.1 m
    scrollHasher := st.scrollHasher.invalidate block.tl.1.toNat y.toNat m.lines }

end CompareState

section Compare

variable {C : Type*} [DecidableEq C] {dir : ScrollDirection} (hash : List C → ℕ)
  (fb : PixelBuffer C)

/-- `memcmp` of a line of a block. -/
def lineDiffers (oldFb : Point → C) (block : Rect) (y : ℤ) : Bool :=
  (List.range block.width.toNat).any fun i =>
    oldFb (block.tl.1 + i, y) ≠ fb.pixel (block.tl.1 + i, y)

/-- How many lines of the block come before the first one that has changed. -/
def firstChanged (oldFb : Point → C) (block : Rect) : Option ℕ :=
  (List.range block.height.toNat).find? fun i => lineDiffers fb oldFb block (block.tl.2 + i)

/-- From the first changed line on, find the best match, if any, for each line. -/
def matchLines (block : Rect) (y : ℤ) (st : CompareState C dir) : CompareState C dir :=
  if y < block.br.2 then
    let found := st.scrollHasher.findBestMatch fb.data hash (fb.offset (block.tl.1, y))
      (block.br.2 - y).toNat block.tl.1.toNat y.toNat
    let st := { st with scrollHasher := found.1 }
    match found.2 with
    | none =>
      -- Heuristic, if a line did not match, probably the next few won't either
      matchLines block (y + 4)
        (st.pushChanged ⟨(block.tl.1, y), (block.br.1, min (y + 4) block.br.2)⟩)
    | some m => matchLines block (y + m.lines) (st.pushCopy block y m)
  else st
termination_by (block.br.2 - y).toNat
decreasing_by
  · omega
  · have := m.pos
    omega

/-- Find sources for a changed block: first for the whole of it, then for parts. -/
def scrollBlock (block : Rect) (y : ℤ) (st : CompareState C dir) : CompareState C dir :=
  if block.width < ScrollBlockSize then st.pushChanged block
  else
    let found :=
      if block.height = ScrollBlockSize then
        st.scrollHasher.findBlock fb.data hash (fb.offset block.tl) block.tl.1.toNat
          block.tl.2.toNat
      else (st.scrollHasher, none)
    let st := { st with scrollHasher := found.1 }
    match found.2 with
    | some m => st.pushCopy block block.tl.2 m
    | none => matchLines hash fb block y st

def compareBlock (detectScroll : Bool) (skipCursorArea : Region) (block : Rect)
    (st : CompareState C dir) : CompareState C dir :=
  match firstChanged fb st.oldFb block with
  | none => if skipCursorArea ≠ ∅ then st.pushChanged block else st
  | some i =>
    let y := block.tl.2 + i
    -- A block has changed - copy the remainder to the oldFb
    let st := { st with
      oldFb := paint (Region.ofRect ⟨(block.tl.1, y), block.br⟩) fb.pixel st.oldFb }
    if !detectScroll || (skipCursorArea ≠ ∅ && skipCursorArea ∩ Region.ofRect block ≠ ∅) then
      st.pushChanged block
    else scrollBlock hash fb block y st

/-- The blocks of a rectangle, line by line. -/
def blocks (r : Rect) : List Rect :=
  (strides BlockSize r.tl.2 r.br.2).flatMap fun blockTop =>
    (strides BlockSize r.tl.1 r.br.1).map fun blockLeft =>
      ⟨(blockLeft, blockTop), (min (blockLeft + BlockSize) r.br.1,
        min r.br.2 (blockTop + BlockSize))⟩

/-- The vertical hasher only knows every 64th column. -/
def alignRect (dir : ScrollDirection) (detectScroll : Bool) (r : Rect) : Rect :=
  if detectScroll && dir = .vert then ⟨(r.tl.1 - r.tl.1 % BlockSize, r.tl.2), r.br⟩ else r

/-- `Region::setOrderedRects` -/
def orderedRects (rects : List Rect) : Region :=
  rects.foldl (fun region r => region ∪ Region.ofRect r) ∅

def compareBlocks (detectScroll : Bool) (skipCursorArea : Region) (r : Rect)
    (st : CompareState C dir) : CompareState C dir :=
  let st := (blocks r).foldl (fun st block => compareBlock hash fb detectScroll skipCursorArea
    block st) { st with changedBlocks := [] }
  if st.changedBlocks ≠ [] then
    { st with newChanged := st.newChanged ∪ orderedRects st.changedBlocks }
  else st

/-- Crop the rect and try again. The cropped rectangle is not cropped once more. -/
def compareRect (detectScroll : Bool) (skipCursorArea : Region) (inr : Rect)
    (st : CompareState C dir) : CompareState C dir :=
  let r := alignRect dir detectScroll inr
  if ¬ r.enclosedBy fb.getRect then
    let safe := r.intersect fb.getRect
    if !safe.isEmpty then
      compareBlocks hash fb detectScroll skipCursorArea (alignRect dir detectScroll safe) st
    else st
  else compareBlocks hash fb detectScroll skipCursorArea r st

end Compare

/-! ## The tracker -/

/-- The server settings for scroll detection. -/
structure ScrollSettings where
  detectScrolling : Bool
  scrollDetectLimit : ℕ

structure ComparingUpdateTracker (C : Type*) (dir : ScrollDirection) where
  tracker : SimpleUpdateTracker
  oldFb : Point → C
  firstCompare : Bool
  enabled : Bool
  detectScroll : Bool
  scrollHasher : ScrollHasher C dir
  copyPassRects : List CopyPassRect

namespace ComparingUpdateTracker

variable {C : Type*} {dir : ScrollDirection}

/-- The content of `oldFb`, line by line. -/
def linear (w : ℕ) (f : Point → C) : ℕ → C := fun o => f (((o % w : ℕ) : ℤ), ((o / w : ℕ) : ℤ))

/-- The copies that the clients will execute are executed on `oldFb`. -/
def applyCopied (c : ComparingUpdateTracker C dir) (fb : PixelBuffer C) :
    Except CopyRectError (Point → C) :=
  let delta := c.tracker.copyDelta
  (c.tracker.copied.getRects (delta.1 ≤ 0) (delta.2 ≤ 0)).foldlM
    (fun f r => copyRect fb.getRect r delta f) c.oldFb

/-- Scrolls are searched for if a certain part of the screen has changed and a block
fits into a changed rectangle. The area is an `uint32_t`. -/
def wantsScroll (settings : ScrollSettings) (fb : PixelBuffer C) (skipScrollDetection : Bool)
    (rects : List Rect) : Bool :=
  let changedArea := (rects.map Rect.area).sum.toNat % 2 ^ 32
  rects.any (fun r => r.width ≥ 64) && settings.detectScrolling && !skipScrollDetection &&
    (changedArea * 100 % 2 ^ 32) / (fb.width * fb.height) > settings.scrollDetectLimit

/-- `compareRect` for all changed rectangles. -/
def compareRects [DecidableEq C] (hash : List C → ℕ) (fb : PixelBuffer C) (detectScroll : Bool)
    (skipCursorArea : Region) (rects : List Rect) (st : CompareState C dir) :
    CompareState C dir :=
  rects.foldl (fun st r => compareRect hash fb detectScroll skipCursorArea r st) st

/-- The comparison itself, after the copies. -/
def compareWith [DecidableEq C] (settings : ScrollSettings) (hash : List C → ℕ)
    (fb : PixelBuffer C) (skipScrollDetection : Bool) (skipCursorArea : Region)
    (c : ComparingUpdateTracker C dir) (oldFb : Point → C) : ComparingUpdateTracker C dir × Bool :=
  let rects := c.tracker.changed.getRects true true
  let detectScroll := wantsScroll settings fb skipScrollDetection rects
  let scrollHasher :=
    if detectScroll then
      c.scrollHasher.calcHashes hash (linear fb.width oldFb) fb.width fb.height
    else c.scrollHasher
  let st := compareRects hash fb detectScroll skipCursorArea rects
    ⟨oldFb, scrollHasher, [], ∅, []⟩
  ({ c with
      tracker := { c.tracker with changed := st.newChanged }
      oldFb := st.oldFb
      detectScroll := detectScroll
      scrollHasher := st.scrollHasher
      copyPassRects := st.copyPassRects },
    c.tracker.changed ≠ st.newChanged)

/-- Returns whether the regions were altered. The first comparison leaves the changed
region untouched, since in effect the entire framebuffer has changed. -/
def compare [DecidableEq C] (settings : ScrollSettings) (hash : List C → ℕ)
    (fb : PixelBuffer C) (skipScrollDetection : Bool) (skipCursorArea : Region)
    (c : ComparingUpdateTracker C dir) :
    Except CopyRectError (ComparingUpdateTracker C dir × Bool) :=
  if !c.enabled then .ok (c, false)
  else if c.firstCompare then .ok ({ c with oldFb := fb.pixel, firstCompare := false }, false)
  else do
    let oldFb ← c.applyCopied fb
    .ok (c.compareWith settings hash fb skipScrollDetection skipCursorArea oldFb)

end ComparingUpdateTracker

end KasmVNC.Rfb
