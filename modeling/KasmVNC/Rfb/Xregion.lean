import KasmVNC.Lib.Banded
import KasmVNC.Rfb.Region

/-!
# The region library

`Xregion/Region.c`, on which `rfb::Region` is built. A region is an array of boxes, ordered by
bands and from left to right within a band, with its extents. Regions are objects that may be
passed twice to the same function, so they have names here. Allocation does not fail, but an array
that is to be enlarged to no size is freed.
-/

namespace KasmVNC.Rfb.Xregion

open KasmVNC.Lib

/-- `BOX` -/
structure Box where
  x1 : ℤ
  x2 : ℤ
  y1 : ℤ
  y2 : ℤ
deriving DecidableEq

/-- `REGION`: the boxes in use of an array of `size`. -/
structure XRegion where
  size : ℕ
  rects : List Box
  extents : Box
deriving DecidableEq

/-- What an `int` becomes in a `short`. -/
def short (x : ℤ) : ℤ := x.bmod (2 ^ 16)

/-- `EXTENTCHECK` -/
def extentCheck (r1 r2 : Box) : Bool :=
  r1.x2 > r2.x1 && r1.x1 < r2.x2 && r1.y2 > r2.y1 && r1.y1 < r2.y2

/-- `INBOX` -/
def inBox (r : Box) (x y : ℤ) : Bool := r.x2 > x && r.x1 ≤ x && r.y2 > y && r.y1 ≤ y

/-! ## Filling a region -/

/-- The new region of `miRegionOp` while it is filled. It is noted if its array was freed, or a box
written behind it. -/
structure NewReg where
  size : ℕ
  rects : List Box
  broken : Bool

namespace NewReg

/-- A box is added, after `MEMCHECK`. For no bytes `realloc` frees the array and returns `NULL`, and
then nothing is added. -/
def add (newReg : NewReg) (x1 x2 y1 y2 : ℤ) : NewReg :=
  let numRects := newReg.rects.length
  let size := if numRects + 1 ≥ newReg.size then 2 * newReg.size else newReg.size
  if size = 0 then { newReg with broken := true }
  else ⟨size, newReg.rects ++ [⟨x1, x2, y1, y2⟩], newReg.broken || size ≤ numRects⟩

end NewReg

def miIntersectO (y1 y2 : ℤ) : List Box → List Box → NewReg → NewReg
  | r1 :: r1s, r2 :: r2s, newReg =>
    let x1 := max r1.x1 r2.x1
    let x2 := min r1.x2 r2.x2
    let newReg := if x1 < x2 then newReg.add x1 x2 y1 y2 else newReg
    if r1.x2 < r2.x2 then miIntersectO y1 y2 r1s (r2 :: r2s) newReg
    else if r2.x2 < r1.x2 then miIntersectO y1 y2 (r1 :: r1s) r2s newReg
    else miIntersectO y1 y2 r1s r2s newReg
  | _, _, newReg => newReg
termination_by r1 r2 => r1.length + r2.length

/-- `miUnionNonO`, and `miSubtractNonO1`, which does the same. -/
def miUnionNonO (y1 y2 : ℤ) (r : List Box) (newReg : NewReg) : NewReg :=
  r.foldl (fun newReg r => newReg.add r.x1 r.x2 y1 y2) newReg

/-- `MERGERECT` -/
def mergeRect (y1 y2 : ℤ) (newReg : NewReg) (r : Box) : NewReg :=
  match newReg.rects.getLast? with
  | some last =>
    if last.y1 = y1 ∧ last.y2 = y2 ∧ last.x2 ≥ r.x1 then
      if last.x2 < r.x2 then
        { newReg with rects := newReg.rects.dropLast ++ [{ last with x2 := r.x2 }] }
      else newReg
    else newReg.add r.x1 r.x2 y1 y2
  | none => newReg.add r.x1 r.x2 y1 y2

def miUnionO (y1 y2 : ℤ) : List Box → List Box → NewReg → NewReg
  | r1 :: r1s, r2 :: r2s, newReg =>
    if r1.x1 < r2.x1 then miUnionO y1 y2 r1s (r2 :: r2s) (mergeRect y1 y2 newReg r1)
    else miUnionO y1 y2 (r1 :: r1s) r2s (mergeRect y1 y2 newReg r2)
  | r1 :: r1s, [], newReg => (r1 :: r1s).foldl (mergeRect y1 y2) newReg
  | [], r2s, newReg => r2s.foldl (mergeRect y1 y2) newReg
termination_by r1 r2 => r1.length + r2.length

/-- The left-most point that is not checked yet, when the next minuend is reached. -/
def nextFence (x1 : ℤ) : List Box → ℤ
  | [] => x1
  | r1 :: _ => r1.x1

/-- The loop of `miSubtractO`. The left-most point that is not checked yet is `x1`. -/
def subtractFrom (y1 y2 : ℤ) : ℤ → List Box → List Box → NewReg → NewReg
  | x1, r1 :: r1s, r2 :: r2s, newReg =>
    if r2.x2 ≤ x1 then subtractFrom y1 y2 x1 (r1 :: r1s) r2s newReg
    else if r2.x1 ≤ x1 then
      if r2.x2 ≥ r1.x2 then subtractFrom y1 y2 (nextFence r2.x2 r1s) r1s (r2 :: r2s) newReg
      else subtractFrom y1 y2 r2.x2 (r1 :: r1s) r2s newReg
    else if r2.x1 < r1.x2 then
      let newReg := newReg.add x1 r2.x1 y1 y2
      if r2.x2 ≥ r1.x2 then subtractFrom y1 y2 (nextFence r2.x2 r1s) r1s (r2 :: r2s) newReg
      else subtractFrom y1 y2 r2.x2 (r1 :: r1s) r2s newReg
    else
      let newReg := if r1.x2 > x1 then newReg.add x1 r1.x2 y1 y2 else newReg
      subtractFrom y1 y2 (nextFence x1 r1s) r1s (r2 :: r2s) newReg
  | x1, r1 :: r1s, [], newReg =>
    subtractFrom y1 y2 (nextFence x1 r1s) r1s [] (newReg.add x1 r1.x2 y1 y2)
  | _, [], _, newReg => newReg
termination_by _ r1 r2 => r1.length + r2.length

def miSubtractO (y1 y2 : ℤ) (r1 r2 : List Box) (newReg : NewReg) : NewReg :=
  subtractFrom y1 y2 (nextFence 0 r1) r1 r2 newReg

/-! ## Bands -/

/-- The boxes up to `r1BandEnd`, or `r2BandEnd`. -/
def bandOf : List Box → List Box
  | [] => []
  | r :: rs => (r :: rs).takeWhile fun b => b.y1 = r.y1

/-- The boxes from there on. -/
def afterBand : List Box → List Box
  | [] => []
  | r :: rs => (r :: rs).dropWhile fun b => b.y1 = r.y1

theorem length_afterBand_cons (r : Box) (rs : List Box) :
    (afterBand (r :: rs)).length < (r :: rs).length := by
  have hdrop : afterBand (r :: rs) = rs.dropWhile fun b => b.y1 = r.y1 := by
    simp [afterBand]
  rw [hdrop]
  exact Nat.lt_succ_of_le (List.dropWhile_suffix _).length_le

/-- Two bands have boxes in the same places. -/
def linesUp (prev cur : List Box) : Bool :=
  (prev.zip cur).all fun p => p.1.x1 = p.2.x1 && p.1.x2 = p.2.x2

/-- Returns the new index of the previous band. -/
def miCoalesce (rects : List Box) (prevStart curStart : ℕ) : List Box × ℕ :=
  let prevNumRects := curStart - prevStart
  let prev := (rects.drop prevStart).take prevNumRects
  let cur := bandOf (rects.drop curStart)
  let rest := afterBand (rects.drop curStart)
  -- if more than one band was added, the start of the last one
  let start := if rest ≠ [] then rects.length - (bandOf rects.reverse).length else curStart
  if cur.length = prevNumRects ∧ cur.length ≠ 0 ∧
      prev.head?.map (·.y2) = cur.head?.map (·.y1) ∧ linesUp prev cur then
    (rects.take prevStart ++ List.zipWith (fun p c => { p with y2 := c.y2 }) prev cur ++ rest,
      if rest = [] then prevStart else start)
  else (rects, start)

/-! ## The generic operator -/

/-- The functions for bands of both regions, and of one of them only. -/
structure BandFuncs where
  overlapFunc : (y1 y2 : ℤ) → List Box → List Box → NewReg → NewReg
  nonOverlap1Func : Option ((y1 y2 : ℤ) → List Box → NewReg → NewReg)
  nonOverlap2Func : Option ((y1 y2 : ℤ) → List Box → NewReg → NewReg)

/-- A function that may be `NULL` is called. -/
def callNonOverlap (func : Option ((y1 y2 : ℤ) → List Box → NewReg → NewReg)) (y1 y2 : ℤ)
    (r : List Box) (newReg : NewReg) : NewReg :=
  match func with
  | none => newReg
  | some f => f y1 y2 r newReg

/-- Boxes that were added since `curBand` are coalesced with the band before. -/
def coalesceFrom (curBand : ℕ) (newReg : NewReg) (prevBand : ℕ) : NewReg × ℕ :=
  if newReg.rects.length ≠ curBand then
    let (rects, prevBand) := miCoalesce newReg.rects prevBand curBand
    ({ newReg with rects := rects }, prevBand)
  else (newReg, prevBand)

/-- The bands of the region that is left. -/
def addRest (func : Option ((y1 y2 : ℤ) → List Box → NewReg → NewReg)) (ybot : ℤ) :
    List Box → NewReg → NewReg
  | [], newReg => newReg
  | r :: rs, newReg =>
    addRest func ybot (afterBand (r :: rs))
      (callNonOverlap func (max r.y1 ybot) r.y2 (bandOf (r :: rs)) newReg)
termination_by r => r.length
decreasing_by exact length_afterBand_cons r rs

/-- The part of a band that only one of the regions has, and the top of the part that both
may have. -/
def addNonOverlap (f : BandFuncs) (r1 r2 : Box) (band1 band2 : List Box) (ybot : ℤ)
    (newReg : NewReg) : NewReg × ℤ :=
  if r1.y1 < r2.y1 then
    let top := max r1.y1 ybot
    let bot := min r1.y2 r2.y1
    (if top ≠ bot then callNonOverlap f.nonOverlap1Func top bot band1 newReg else newReg, r2.y1)
  else if r2.y1 < r1.y1 then
    let top := max r2.y1 ybot
    let bot := min r2.y2 r1.y1
    (if top ≠ bot then callNonOverlap f.nonOverlap2Func top bot band2 newReg else newReg, r1.y1)
  else (newReg, r1.y1)

/-- The loop of `miRegionOp` and what comes after it. -/
def regionLoop (f : BandFuncs) : List Box → List Box → ℤ → ℕ → NewReg → NewReg
  | r1 :: r1s, r2 :: r2s, ybot, prevBand, newReg =>
    let band1 := bandOf (r1 :: r1s)
    let band2 := bandOf (r2 :: r2s)
    let curBand := newReg.rects.length
    let (newReg, ytop) := addNonOverlap f r1 r2 band1 band2 ybot newReg
    let (newReg, prevBand) := coalesceFrom curBand newReg prevBand
    let ybot := min r1.y2 r2.y2
    let curBand := newReg.rects.length
    let newReg := if ybot > ytop then f.overlapFunc ytop ybot band1 band2 newReg else newReg
    let (newReg, prevBand) := coalesceFrom curBand newReg prevBand
    regionLoop f (if r1.y2 = min r1.y2 r2.y2 then afterBand (r1 :: r1s) else r1 :: r1s)
      (if r2.y2 = min r1.y2 r2.y2 then afterBand (r2 :: r2s) else r2 :: r2s) ybot prevBand newReg
  | r1 :: r1s, [], ybot, prevBand, newReg =>
    (coalesceFrom newReg.rects.length (addRest f.nonOverlap1Func ybot (r1 :: r1s) newReg)
      prevBand).1
  | [], r2s, ybot, prevBand, newReg =>
    (coalesceFrom newReg.rects.length (addRest f.nonOverlap2Func ybot r2s newReg) prevBand).1
termination_by r1 r2 => r1.length + r2.length
decreasing_by
  have h1 := length_afterBand_cons r1 r1s
  have h2 := length_afterBand_cons r2 r2s
  split_ifs <;> omega

/-- The array is cut to the boxes in use if less than half of it is. -/
def shrunk (size numRects : ℕ) : ℕ :=
  if numRects < size / 2 then if numRects ≠ 0 then numRects else 1 else size

/-! ## The functions of the library -/

section

variable {ι : Type*} [DecidableEq ι]

/-- `XCreateRegion` -/
def XCreateRegion : XRegion := ⟨1, [], ⟨0, 0, 0, 0⟩⟩

/-- The new region may be one of the two others. It is marked empty before the size of its new
array is computed. There is no result if it is left with a freed array, or one that was written
behind. -/
def miRegionOp (f : BandFuncs) (newReg reg1 reg2 : ι) (m : ι → XRegion) : Option (ι → XRegion) :=
  let emptied := Function.update m newReg { m newReg with rects := [] }
  let size := max (emptied reg1).rects.length (emptied reg2).rects.length * 2
  let ybot := if (m reg1).extents.y1 < (m reg2).extents.y1 then (m reg1).extents.y1
    else (m reg2).extents.y1
  let filled := regionLoop f (m reg1).rects (m reg2).rects ybot 0 ⟨size, [], false⟩
  if filled.broken then none
  else some (Function.update m newReg
    { m newReg with size := shrunk filled.size filled.rects.length, rects := filled.rects })

/-- The extents are widened to the sides of a box. -/
def widen (extents b : Box) : Box :=
  let extents := if b.x1 < extents.x1 then { extents with x1 := b.x1 } else extents
  if b.x2 > extents.x2 then { extents with x2 := b.x2 } else extents

/-- The extents of boxes in bands. -/
def extentsOf : List Box → Box
  | [] => ⟨0, 0, 0, 0⟩
  | pBox :: boxes =>
    let last := (pBox :: boxes).getLastD pBox
    (pBox :: boxes).foldl widen ⟨pBox.x1, last.x2, pBox.y1, last.y2⟩

def miSetExtents (pReg : ι) (m : ι → XRegion) : ι → XRegion :=
  Function.update m pReg { m pReg with extents := extentsOf (m pReg).rects }

def miRegionCopy (dstrgn rgn : ι) (m : ι → XRegion) : ι → XRegion :=
  if dstrgn ≠ rgn then
    Function.update m dstrgn
      { m rgn with size := if (m dstrgn).size < (m rgn).rects.length then (m rgn).rects.length
          else (m dstrgn).size }
  else m

def intersectFuncs : BandFuncs := ⟨miIntersectO, none, none⟩

def unionFuncs : BandFuncs := ⟨miUnionO, some miUnionNonO, some miUnionNonO⟩

def subtractFuncs : BandFuncs := ⟨miSubtractO, some miUnionNonO, none⟩

def XIntersectRegion (reg1 reg2 newReg : ι) (m : ι → XRegion) : Option (ι → XRegion) :=
  let done :=
    if (m reg1).rects = [] ∨ (m reg2).rects = [] ∨
        !extentCheck (m reg1).extents (m reg2).extents then
      some (Function.update m newReg { m newReg with rects := [] })
    else miRegionOp intersectFuncs newReg reg1 reg2 m
  done.map (miSetExtents newReg)

/-- The one box of a region covers another one. -/
def subsumes (reg1 reg2 : XRegion) : Bool :=
  reg1.rects.length = 1 && reg1.extents.x1 ≤ reg2.extents.x1 &&
    reg1.extents.y1 ≤ reg2.extents.y1 && reg1.extents.x2 ≥ reg2.extents.x2 &&
    reg1.extents.y2 ≥ reg2.extents.y2

def unionExtents (e1 e2 : Box) : Box :=
  ⟨min e1.x1 e2.x1, max e1.x2 e2.x2, min e1.y1 e2.y1, max e1.y2 e2.y2⟩

/-- To copy a region to itself is to leave it. -/
def XUnionRegion (reg1 reg2 newReg : ι) (m : ι → XRegion) : Option (ι → XRegion) :=
  if reg1 = reg2 ∨ (m reg1).rects = [] then some (miRegionCopy newReg reg2 m)
  else if (m reg2).rects = [] then some (miRegionCopy newReg reg1 m)
  else if subsumes (m reg1) (m reg2) then some (miRegionCopy newReg reg1 m)
  else if subsumes (m reg2) (m reg1) then some (miRegionCopy newReg reg2 m)
  else
    (miRegionOp unionFuncs newReg reg1 reg2 m).map fun m' =>
      Function.update m' newReg
        { m' newReg with extents := unionExtents (m reg1).extents (m reg2).extents }

def XSubtractRegion (regM regS regD : ι) (m : ι → XRegion) : Option (ι → XRegion) :=
  if (m regM).rects = [] ∨ (m regS).rects = [] ∨
      !extentCheck (m regM).extents (m regS).extents then
    some (miRegionCopy regD regM m)
  else (miRegionOp subtractFuncs regD regM regS m).map (miSetExtents regD)

end

def Box.offset (b : Box) (x y : ℤ) : Box :=
  ⟨short (b.x1 + x), short (b.x2 + x), short (b.y1 + y), short (b.y2 + y)⟩

def XOffsetRegion (r : XRegion) (x y : ℤ) : XRegion :=
  { r with rects := r.rects.map (·.offset x y), extents := r.extents.offset x y }

def XEqualRegion (r1 r2 : XRegion) : Bool :=
  if r1.rects.length ≠ r2.rects.length then false
  else if r1.rects.length = 0 then true
  else if r1.extents ≠ r2.extents then false
  else (r1.rects.zip r2.rects).all fun p => p.1 = p.2

def XPointInRegion (r : XRegion) (x y : ℤ) : Bool :=
  if r.rects.length = 0 then false
  else if !inBox r.extents x y then false
  else r.rects.any fun b => inBox b x y

end KasmVNC.Rfb.Xregion
