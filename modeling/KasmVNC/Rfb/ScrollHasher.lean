import KasmVNC.Lib.CountingSort
import KasmVNC.Lib.PowerOfTwo
import Mathlib.Data.Int.Basic
import Mathlib.Data.List.TakeWhile

/-!
# Finding scrolled content

`scrollHasher_vert_t` and `scrollHasher_bothDir_t`: a table with the hash of the
64-pixel segment of the old framebuffer at each position, by which lines of a new
block are found elsewhere in the old framebuffer. What has been overwritten is
removed from the table. The two hashers differ in the positions they consider:
the first one every 64th column, and only as a source for the same column of
blocks if it can; the second one every column.

Arrays are functions of their index, and a framebuffer is the function of a pixel's
offset.
-/

namespace KasmVNC.Rfb

open KasmVNC.Lib

abbrev ScrollBlockSize : ℕ := 64
abbrev MaxChecks : ℕ := 8

def ispow (n : ℕ) : Bool := if n < 2 then false else n &&& (n - 1) = 0

/-- The argument and the result are `uint32_t`. -/
def npow (n : ℕ) : ℕ :=
  if ispow n then n
  else
    let n := n ||| n >>> 1
    let n := n ||| n >>> 2
    let n := n ||| n >>> 4
    let n := n ||| n >>> 8
    let n := n ||| n >>> 16
    (n + 1) % 2 ^ 32

/-- `__builtin_ffs`: one plus the place of the lowest bit, or 0 if there is none. -/
def ffs (n : ℕ) : ℕ := (((List.range 32).find? fun i => n.testBit i).map (· + 1)).getD 0

def pow2shift (n : ℕ) : ℕ := ffs n - 1

/-- The class of the hasher, chosen once by `Server::detectHorizontal`. -/
inductive ScrollDirection
  | vert
  | bothDir
deriving DecidableEq

namespace ScrollDirection

/-- `NUM_TOTALS` -/
def numTotals : ScrollDirection → ℕ
  | vert => 1024 * 256
  | bothDir => 1024 * 1024 * 2

/-- The distance between two positions of a line. -/
def spacing : ScrollDirection → ℕ
  | vert => ScrollBlockSize
  | bothDir => 1

/-- The number of positions of a line. The difference is unsigned. -/
def columns (w : ℕ) : ScrollDirection → ℕ
  | vert => w / ScrollBlockSize
  | bothDir => (w + 2 ^ 64 - (ScrollBlockSize - 1)) % 2 ^ 64

end ScrollDirection

/-- The pixels of one line of a block. -/
def segment {C : Type*} (data : ℕ → C) (offset : ℕ) : List C :=
  (List.range ScrollBlockSize).map fun j => data (offset + j)

theorem segment_apply {C : Type*} {f g : ℕ → C} {a b j : ℕ} (h : segment f a = segment g b)
    (hj : j < 64) : f (a + j) = g (b + j) := by
  have hget := congrArg (·[j]?) h
  simpa [segment, hj] using hget

structure ScrollHasher (C : Type*) (dir : ScrollDirection) where
  w : ℕ
  h : ℕ
  hashtable : ℕ → ℕ
  totals : ℕ → ℕ
  starts : ℕ → ℕ
  idxtable : ℕ → ℕ
  lastOffX : ℤ
  lastOffY : ℤ
  olddata : ℕ → C

/-- What is reported if lines of a block were found: `outx`, `outy` and `outlines`. -/
structure Match where
  x : ℕ
  y : ℕ
  lines : ℕ
  pos : 0 < lines

/-- The best candidate so far and its number of lines; the search ends with a
candidate that has all of them. -/
def pickBest {ι : Type*} (maxLines : ℕ) (lines : ι → ℕ) : List ι → ι × ℕ → ι × ℕ
  | [], best => best
  | i :: is, best =>
    let best := if lines i > best.2 then (i, lines i) else best
    if lines i = maxLines then best else pickBest maxLines lines is best

namespace ScrollHasher

variable {C : Type*} {dir : ScrollDirection} (s : ScrollHasher C dir)

/-! ## The table -/

def hashw : ℕ := npow (dir.columns s.w % 2 ^ 32)

def hashShift : ℕ := pow2shift s.hashw

def hashAnd : ℕ := s.hashw - 1

def tableIndex (y column : ℕ) : ℕ := (y <<< s.hashShift) + column

/-- The positions in the order of the loops. -/
def positions : List (ℕ × ℕ) :=
  (List.range s.h).flatMap fun y => (List.range (dir.columns s.w)).map fun c => (y, c)

/-- The offset of a position in the old framebuffer. -/
def position (p : ℕ × ℕ) : ℕ := p.1 * s.w + p.2 * dir.spacing

def hashOf (hash : List C → ℕ) (p : ℕ × ℕ) : ℕ := hash (segment s.olddata (s.position p))

/-- Hash all positions and count the hashes of each bucket. -/
def fillTable (hash : List C → ℕ) : ScrollHasher C dir :=
  { s with
    hashtable := s.positions.foldl
      (fun table p => Function.update table (s.tableIndex p.1 p.2) (s.hashOf hash p)) s.hashtable
    totals := bucketTotals (fun p => s.hashOf hash p % dir.numTotals) s.positions }

/-- Update starting positions. -/
def updateStarts : ScrollHasher C dir :=
  { s with starts := (bucketStarts s.totals dir.numTotals s.starts).1 }

/-- Update index table. The cursors of the buckets begin at their starts. -/
def updateIndex : ScrollHasher C dir :=
  { s with
    idxtable := (placeItems (fun p => s.hashtable (s.tableIndex p.1 p.2) % dir.numTotals)
      (fun p => s.tableIndex p.1 p.2) s.positions (s.starts, s.idxtable)).2 }

def calcHashes (hash : List C → ℕ) (ptr : ℕ → C) (w h : ℕ) : ScrollHasher C dir :=
  let s : ScrollHasher C dir := { s with w := w, h := h, olddata := ptr }
  let s := (s.fillTable hash).updateStarts.updateIndex
  { s with lastOffX := 0, lastOffY := 0 }

def oldy (idx : ℕ) : ℕ := idx >>> s.hashShift

def oldx (idx : ℕ) : ℕ := (idx &&& s.hashAnd) * dir.spacing

/-- `memset` to zero -/
def clearSpan (table : ℕ → ℕ) (first n : ℕ) : ℕ → ℕ :=
  fun i => if first ≤ i ∧ i < first + n then 0 else table i

/-- Remove the positions whose segment overlaps a block. -/
def invalidate (x y lines : ℕ) : ScrollHasher C dir :=
  let rows := List.range' y lines
  match dir with
  | .vert =>
    { s with
      hashtable := rows.foldl
        (fun table y => clearSpan table (s.tableIndex y (x / ScrollBlockSize)) 1) s.hashtable }
  | .bothDir =>
    let left := if x > ScrollBlockSize - 1 then ScrollBlockSize - 1 else x
    let right := if x + ScrollBlockSize + (ScrollBlockSize - 1) < s.w then ScrollBlockSize - 1
      else s.w - x - ScrollBlockSize
    { s with
      hashtable := rows.foldl
        (fun table y =>
          clearSpan table (s.tableIndex y x - left) (ScrollBlockSize + left + right))
        s.hashtable }

/-! ## Searching -/

section Search

variable [DecidableEq C] (newdata : ℕ → C)

/-- `memcmp` of a new line with an old one. -/
def sameLine (ptr offset : ℕ) : Bool := segment newdata ptr = segment s.olddata offset

/-- Try the last good offset. If this was a scroll, it should match almost
everything. -/
def goodOffset (ptr starthash maxLines inx iny : ℕ) : List ℕ :=
  let tryX : ℤ := inx + s.lastOffX
  let tryY : ℤ := iny + s.lastOffY
  -- a negative sum is a huge unsigned number
  if (s.lastOffX ≠ 0 ∨ s.lastOffY ≠ 0) ∧
      (0 ≤ tryX ∧ tryX < s.w - (ScrollBlockSize - 1)) ∧ 0 ≤ tryY ∧ tryY < s.h - maxLines then
    let curidx := s.tableIndex tryY.toNat (tryX.toNat / dir.spacing)
    if s.hashtable curidx = starthash &&
        s.sameLine newdata ptr (tryY.toNat * s.w + tryX.toNat) then [curidx] else []
  else []

/-- The scan of a bucket looks at no more than about 32 of its entries. -/
def scanned (smallIdx : ℕ) : List ℕ :=
  let total := s.totals smallIdx
  let inc := if total / 32 = 0 then 1 else total / 32
  (List.range' (s.starts smallIdx) ((total + inc - 1) / inc) inc).map s.idxtable

/-- Table positions whose segment is the first line. -/
def firstLineMatches (ptr starthash maxLines inx iny : ℕ) : List ℕ :=
  (s.goodOffset newdata ptr starthash maxLines inx iny ++
    (s.scanned (starthash % dir.numTotals)).filter fun curidx =>
      s.hashtable curidx = starthash &&
        s.sameLine newdata ptr (s.oldy curidx * s.w + s.oldx curidx)).take MaxChecks

/-- How many lines match from a table position on. Invalidated ones do not. -/
def matchingLines (ptr maxLines idx : ℕ) : ℕ :=
  let bothMaxLines := min maxLines (s.h - s.oldy idx)
  1 + ((List.range' 1 (bothMaxLines - 1)).takeWhile fun k =>
    s.hashtable (idx + (k <<< s.hashShift)) ≠ 0 &&
      s.sameLine newdata (ptr + s.w * k) ((s.oldy idx + k) * s.w + s.oldx idx)).length

/-- Was it a good match? If so, store for later. -/
def rememberOffset (m : Match) (smallIdx maxLines inx iny : ℕ) : ScrollHasher C dir :=
  match dir with
  | .vert =>
    if m.x = inx ∧ m.lines ≥ maxLines / 2 ∧ s.totals smallIdx < 4 ∧ m.y ≠ iny then
      { s with lastOffX := 0, lastOffY := m.y - iny }
    else s
  | .bothDir =>
    if m.lines ≥ maxLines / 2 ∧ s.totals smallIdx < 4 then
      { s with lastOffX := m.x - inx, lastOffY := m.y - iny }
    else s

variable (hash : List C → ℕ)

def findBestMatch (ptr maxLines inx iny : ℕ) : ScrollHasher C dir × Option Match :=
  let starthash := hash (segment newdata ptr)
  let smallIdx := starthash % dir.numTotals
  if s.totals smallIdx = 0 then (s, none)
  else
    match s.firstLineMatches newdata ptr starthash maxLines inx iny with
    | [] => (s, none)
    | idx :: rest =>
      let best := pickBest maxLines (s.matchingLines newdata ptr maxLines)
        (idx :: rest) (idx, 0)
      if hpos : 0 < best.2 then
        let m : Match := ⟨s.oldx best.1, s.oldy best.1, best.2, hpos⟩
        (s.rememberOffset m smallIdx maxLines inx iny, some m)
      else (s, none)

/-- The line of a block that is least frequent, and how frequent it is. -/
def lowestLine (total : ℕ → ℕ) : ℕ × ℕ :=
  (List.range ScrollBlockSize).foldl
    (fun lowest i => if total i < lowest.2 then (i, total i) else lowest) (0, 10000)

/-- Look for a whole block in its own column, from its least frequent line. Not
implemented for horizontal. -/
def findBlock (ptr inx iny : ℕ) : ScrollHasher C dir × Option Match :=
  match dir with
  | .bothDir => (s, none)
  | .vert =>
    let total (i : ℕ) : ℕ :=
      s.totals (hash (segment newdata (ptr + s.w * i)) % ScrollDirection.vert.numTotals)
    if (List.range ScrollBlockSize).any fun i => total i = 0 then (s, none)
    else if (lowestLine total).2 > MaxChecks then (s, none)
    else
      let lowest := (lowestLine total).1
      let found := s.findBestMatch newdata hash (ptr + s.w * lowest) (ScrollBlockSize - lowest)
        inx (iny + lowest)
      match found.2 with
      | none => (found.1, none)
      | some m =>
        if m.lines = ScrollBlockSize - lowest ∧ m.x = inx ∧ lowest ≤ m.y ∧
            (List.range lowest).all fun i =>
              s.hashtable (s.tableIndex (m.y - lowest + i) (inx / ScrollBlockSize)) ≠ 0 &&
                s.sameLine newdata (ptr + s.w * i) ((m.y - lowest + i) * s.w + m.x) then
          (found.1, some ⟨m.x, m.y - lowest, ScrollBlockSize, by decide⟩)
        else (found.1, none)

end Search

end ScrollHasher

/-! ## Addressing the table -/

theorem npow_eq {n : ℕ} (hzero : n ≠ 0) (hn : n < 2 ^ 31) :
    (∃ k < 31, n = 2 ^ k ∧ npow n = n) ∨ npow n = 2 ^ (n.log2 + 1) := by
  unfold npow
  split
  · rename_i hpow
    have hand : n &&& (n - 1) = 0 := by
      unfold ispow at hpow
      split at hpow
      · cases hpow
      · exact of_decide_eq_true hpow
    obtain ⟨k, rfl⟩ := (Nat.and_sub_one_eq_zero_iff_isPowerOfTwo hzero).mp hand
    exact Or.inl ⟨k, (Nat.pow_lt_pow_iff_right (by decide)).mp hn, rfl, rfl⟩
  · have hsmear := (smears_one n).double.double.double.double.double
    have hsucc := hsmear.succ_eq_two_pow hzero (hn.trans (by decide))
    have hlog : n.log2 < 31 := (Nat.log2_lt hzero).mpr hn
    have hlt : 2 ^ (n.log2 + 1) < 2 ^ 32 := Nat.pow_lt_pow_right (by decide) (by omega)
    exact Or.inr ((Nat.mod_eq_of_lt (hsucc.trans_lt hlt)).trans hsucc)

theorem npow_spec {n : ℕ} (hzero : n ≠ 0) (hn : n < 2 ^ 31) :
    ∃ k < 32, npow n = 2 ^ k ∧ n ≤ 2 ^ k := by
  rcases npow_eq hzero hn with ⟨k, hk, hpow, hsame⟩ | hnext
  · exact ⟨k, by omega, hsame.trans hpow, hpow.le⟩
  · have hlog : n.log2 < 31 := (Nat.log2_lt hzero).mpr hn
    exact ⟨n.log2 + 1, by omega, hnext, Nat.lt_log2_self.le⟩

/-- A number is more than half of the next power of two. -/
theorem npow_le_double {n : ℕ} (hzero : n ≠ 0) (hn : n < 2 ^ 31) : npow n ≤ 2 * n := by
  rcases npow_eq hzero hn with ⟨-, -, -, hsame⟩ | hnext
  · rw [hsame]
    omega
  · have hlog := Nat.log2_self_le hzero
    rw [hnext, Nat.pow_succ]
    omega

theorem pow2shift_two_pow {k : ℕ} (hk : k < 32) : pow2shift (2 ^ k) = k := by
  have hfind : ((List.range 32).find? fun i => (2 ^ k).testBit i) = some k := by
    rw [List.find?_range_eq_some]
    refine ⟨Nat.testBit_two_pow_self, List.mem_range.mpr hk, fun j hj => ?_⟩
    rw [Nat.testBit_two_pow_of_ne hj.ne']
    rfl
  rw [pow2shift, ffs, hfind]
  rfl

namespace ScrollHasher

variable {C : Type*} {dir : ScrollDirection} {s : ScrollHasher C dir}

/-- The framebuffer is wide enough for a block, and its width is an `int`. -/
def Wide (w : ℕ) : Prop := ScrollBlockSize ≤ w ∧ w < 2 ^ 31

theorem columns_bothDir {w : ℕ} (h : Wide w) : ScrollDirection.bothDir.columns w = w - 63 := by
  have hle : 64 ≤ w := h.1
  have hlt : w < 2 ^ 31 := h.2
  show (w + 2 ^ 64 - 63) % 2 ^ 64 = w - 63
  omega

theorem columns_pos {w : ℕ} (h : Wide w) : 0 < dir.columns w ∧ dir.columns w < 2 ^ 31 := by
  have hle : 64 ≤ w := h.1
  have hlt : w < 2 ^ 31 := h.2
  cases dir with
  | vert =>
    show 0 < w / 64 ∧ w / 64 < 2 ^ 31
    omega
  | bothDir =>
    rw [columns_bothDir h]
    omega

/-- The segment at a position lies inside its line. -/
theorem position_lt {w c : ℕ} (h : Wide w) (hc : c < dir.columns w) :
    c * dir.spacing + ScrollBlockSize ≤ w := by
  have hle : 64 ≤ w := h.1
  cases dir with
  | vert =>
    have hc : c < w / 64 := hc
    show c * 64 + 64 ≤ w
    omega
  | bothDir =>
    rw [columns_bothDir h] at hc
    show c * 1 + 64 ≤ w
    omega

theorem column_of_aligned {x w : ℕ} (h : Wide w) (hx : dir.spacing ∣ x)
    (hxw : x + ScrollBlockSize ≤ w) : x / dir.spacing < dir.columns w ∧
      x / dir.spacing * dir.spacing = x := by
  refine ⟨?_, Nat.div_mul_cancel hx⟩
  cases dir with
  | vert =>
    show x / 64 < w / 64
    have hxw : x + 64 ≤ w := hxw
    omega
  | bothDir =>
    rw [columns_bothDir h]
    show x / 1 < w - 63
    have hxw : x + 64 ≤ w := hxw
    omega

/-- Rows are padded to a power of two. -/
theorem hashw_spec (h : Wide s.w) :
    s.hashw = 2 ^ s.hashShift ∧ dir.columns s.w ≤ 2 ^ s.hashShift := by
  obtain ⟨hpos, hlt⟩ := @columns_pos dir _ h
  obtain ⟨k, hk, hpow, hle⟩ := npow_spec hpos.ne' hlt
  have hhashw : s.hashw = 2 ^ k := by
    rw [hashw, Nat.mod_eq_of_lt (hlt.trans (by decide)), hpow]
  have hshift : s.hashShift = k := by
    rw [hashShift, hhashw, pow2shift_two_pow hk]
  rw [hshift]
  exact ⟨hhashw, hle⟩

section Layout

variable {y c : ℕ}

theorem oldy_tableIndex (h : Wide s.w) (hc : c < dir.columns s.w) :
    s.oldy (s.tableIndex y c) = y :=
  rowIndex_row (hc.trans_le (hashw_spec h).2)

theorem oldx_tableIndex (h : Wide s.w) (hc : c < dir.columns s.w) :
    s.oldx (s.tableIndex y c) = c * dir.spacing := by
  rw [oldx, hashAnd, (hashw_spec h).1]
  exact congrArg (· * dir.spacing) (rowIndex_column (hc.trans_le (hashw_spec h).2))

theorem tableIndex_inj (h : Wide s.w) {y' c' : ℕ} (hc : c < dir.columns s.w)
    (hc' : c' < dir.columns s.w) (heq : s.tableIndex y c = s.tableIndex y' c') :
    (y, c) = (y', c') := by
  have hle := (hashw_spec h).2
  have hrow := congrArg (· >>> s.hashShift) heq
  have hcolumn := congrArg (· &&& (2 ^ s.hashShift - 1)) heq
  simp only [tableIndex, rowIndex_row (hc.trans_le hle), rowIndex_row (hc'.trans_le hle),
    rowIndex_column (hc.trans_le hle), rowIndex_column (hc'.trans_le hle)] at hrow hcolumn
  rw [hrow, hcolumn]

theorem tableIndex_add (y c k : ℕ) :
    s.tableIndex y c + (k <<< s.hashShift) = s.tableIndex (y + k) c :=
  rowIndex_add y c k _

theorem mem_positions {p : ℕ × ℕ} : p ∈ s.positions ↔ p.1 < s.h ∧ p.2 < dir.columns s.w := by
  obtain ⟨y, c⟩ := p
  simp [positions]

end Layout

/-! ## What the search relies on -/

/-- The index table only holds positions of the framebuffer. -/
structure WellFormed (s : ScrollHasher C dir) : Prop where
  wide : Wide s.w
  indexed : ∀ b, s.totals b ≠ 0 → ∀ i, s.starts b ≤ i → i < s.starts b + s.totals b →
    ∃ p ∈ s.positions, s.idxtable i = s.tableIndex p.1 p.2
  /-- The vertical hasher stores no horizontal offset. -/
  offset : dir = .vert → s.lastOffX = 0

section CalcHashes

variable (s : ScrollHasher C dir) (hash : List C → ℕ) (ptr : ℕ → C) (w h : ℕ)

/-- The bucket of a position. -/
def positionKey (p : ℕ × ℕ) : ℕ := (s.calcHashes hash ptr w h).hashOf hash p % dir.numTotals

theorem positionKey_lt (p : ℕ × ℕ) : s.positionKey hash ptr w h p < dir.numTotals := by
  refine Nat.mod_lt _ ?_
  cases dir <;> decide

/-- The table holds the hashes of all positions. -/
theorem hashtable_calcHashes (hw : Wide w) {p : ℕ × ℕ}
    (hp : p ∈ (s.calcHashes hash ptr w h).positions) :
    (s.calcHashes hash ptr w h).hashtable ((s.calcHashes hash ptr w h).tableIndex p.1 p.2) =
      (s.calcHashes hash ptr w h).hashOf hash p := by
  refine @foldl_update_of_mem _ _
    (fun p : ℕ × ℕ => (s.calcHashes hash ptr w h).tableIndex p.1 p.2) _ _ _
    (fun q hq heq => ?_) hp _
  exact tableIndex_inj (s := s.calcHashes hash ptr w h) hw (mem_positions.mp hq).2
    (mem_positions.mp hp).2 heq

/-- The slice of a bucket in the index table holds its positions in their order. -/
theorem idxtable_calcHashes (hw : Wide w) {b j : ℕ}
    (hj : j < (s.calcHashes hash ptr w h).totals b) :
    ∃ p, (bucket (s.positionKey hash ptr w h) (s.calcHashes hash ptr w h).positions b)[j]? =
        some p ∧
      (s.calcHashes hash ptr w h).idxtable ((s.calcHashes hash ptr w h).starts b + j) =
        (s.calcHashes hash ptr w h).tableIndex p.1 p.2 := by
  let s₀ : ScrollHasher C dir := { s with w := w, h := h, olddata := ptr }
  -- the table holds what was counted
  have hkey : ∀ p ∈ s₀.positions,
      (s₀.fillTable hash).hashtable (s₀.tableIndex p.1 p.2) % dir.numTotals =
        s.positionKey hash ptr w h p :=
    fun p hp => congrArg (· % dir.numTotals) (hashtable_calcHashes s hash ptr w h hw hp)
  obtain ⟨hlt, hvalue⟩ := countingSort_slice (fun p : ℕ × ℕ => s₀.tableIndex p.1 p.2) s₀.starts
    s₀.idxtable (fun p _ => positionKey_lt s hash ptr w h p)
    (Nat.ne_of_gt (Nat.zero_lt_of_lt hj)) hj
  refine ⟨_, List.getElem?_eq_getElem hlt, Eq.trans ?_ hvalue⟩
  show (placeItems (fun p => (s₀.fillTable hash).hashtable (s₀.tableIndex p.1 p.2) %
    dir.numTotals) (fun p => s₀.tableIndex p.1 p.2) s₀.positions _).2 _ = _
  rw [placeItems_congr _ hkey]
  rfl

theorem wellFormed_calcHashes (hw : Wide w) : (s.calcHashes hash ptr w h).WellFormed := by
  refine ⟨hw, fun b hb i hi hi' => ?_, fun _ => rfl⟩
  obtain ⟨j, rfl⟩ := Nat.exists_eq_add_of_le hi
  obtain ⟨p, hp, hvalue⟩ :=
    idxtable_calcHashes s hash ptr w h hw (Nat.lt_of_add_lt_add_left hi')
  exact ⟨p, List.mem_of_mem_filter (List.mem_of_getElem? hp), hvalue⟩

end CalcHashes

/-! ## Removing what was overwritten -/

theorem foldl_clearSpan {first : ℕ → ℕ} {n i : ℕ} : ∀ {rows : List ℕ} {table : ℕ → ℕ},
    rows.foldl (fun table y => clearSpan table (first y) n) table i ≠ 0 →
      table i ≠ 0 ∧ ∀ y ∈ rows, ¬ (first y ≤ i ∧ i < first y + n)
  | [], _, h => ⟨h, fun _ hy => absurd hy List.not_mem_nil⟩
  | y :: rows, table, h => by
    obtain ⟨hclear, hrows⟩ := @foldl_clearSpan _ _ _ _ (clearSpan table (first y) n) h
    unfold clearSpan at hclear
    split at hclear
    · exact absurd rfl hclear
    · rename_i hout
      exact ⟨hclear, List.forall_mem_cons.mpr ⟨hout, hrows⟩⟩

/-- The span of a line reaches back to the first segment that overlaps the block. -/
theorem clearSpan_covers {base x c left right : ℕ}
    (hleft : left = if x > ScrollBlockSize - 1 then ScrollBlockSize - 1 else x)
    (hover : c < x + 64 ∧ x < c + 64) :
    base + x - left ≤ base + c ∧ base + c < base + x - left + (ScrollBlockSize + left + right) := by
  have hleft : left = if x > 63 then 63 else x := hleft
  show base + x - left ≤ base + c ∧ base + c < base + x - left + (64 + left + right)
  split at hleft
  · omega
  · omega

/-- No segment in the table contains a written pixel. -/
def Fresh (s : ScrollHasher C dir) (written : ℕ → ℕ → Prop) : Prop :=
  ∀ p ∈ s.positions, s.hashtable (s.tableIndex p.1 p.2) ≠ 0 →
    ∀ j < ScrollBlockSize, ¬ written (p.2 * dir.spacing + j) p.1

theorem fresh_of_not_written (s : ScrollHasher C dir) {written : ℕ → ℕ → Prop}
    (h : ∀ x y, ¬ written x y) : s.Fresh written :=
  fun _ _ _ _ _ => h _ _

theorem Fresh.invalidate {written written' : ℕ → ℕ → Prop} (h : s.Fresh written)
    (hw : Wide s.w) {x y lines : ℕ} (hx : dir.spacing ∣ x)
    (hwritten : ∀ x' y', written' x' y' →
      written x' y' ∨ (x ≤ x' ∧ x' < x + ScrollBlockSize) ∧ y ≤ y' ∧ y' < y + lines) :
    (s.invalidate x y lines).Fresh written' := by
  intro p hp hentry j hj hpixel
  -- what is left was there before, and not in the cleared spans
  have hkept : s.hashtable (s.tableIndex p.1 p.2) ≠ 0 ∧
      ((y ≤ p.1 ∧ p.1 < y + lines) → p.2 * dir.spacing + j < x ∨
        x + ScrollBlockSize ≤ p.2 * dir.spacing + j) := by
    cases dir with
    | vert =>
      obtain ⟨hold, hrows⟩ := foldl_clearSpan hentry
      refine ⟨hold, fun hrow => ?_⟩
      have hout := hrows p.1 (List.mem_range'_1.mpr hrow)
      have hx : 64 ∣ x := hx
      have hj : j < 64 := hj
      show p.2 * 64 + j < x ∨ x + 64 ≤ p.2 * 64 + j
      have hcolumn : p.2 ≠ x / 64 := by
        rintro heq
        refine hout ⟨?_, ?_⟩
        · show s.tableIndex p.1 (x / 64) ≤ s.tableIndex p.1 p.2
          rw [heq]
        · show s.tableIndex p.1 p.2 < s.tableIndex p.1 (x / 64) + 1
          rw [heq]
          exact Nat.lt_succ_self _
      omega
    | bothDir =>
      obtain ⟨hold, hrows⟩ := foldl_clearSpan hentry
      refine ⟨hold, fun hrow => ?_⟩
      have hout := hrows p.1 (List.mem_range'_1.mpr hrow)
      have hj : j < 64 := hj
      show p.2 * 1 + j < x ∨ x + 64 ≤ p.2 * 1 + j
      by_contra hover
      exact hout (clearSpan_covers rfl (by omega))
  have hp' : p ∈ s.positions := by
    rw [mem_positions] at hp ⊢
    cases dir with
    | vert => exact hp
    | bothDir => exact hp
  rcases hwritten _ _ hpixel with hold | ⟨hcolumns, hrow⟩
  · exact h p hp' hkept.1 j hj hold
  · rcases hkept.2 hrow with hlt | hle
    · omega
    · omega

/-! ## Reports are genuine -/

section Genuine

variable [DecidableEq C] {newdata : ℕ → C} {ptr maxLines inx iny : ℕ}

/-- The lines lie inside the old framebuffer at a position of the table, they equal
the new ones, and none of them has been overwritten. -/
structure Genuine (s : ScrollHasher C dir) (newdata : ℕ → C) (ptr maxLines : ℕ) (m : Match) :
    Prop where
  lines_le : m.lines ≤ maxLines
  bottom : m.y + m.lines ≤ s.h
  column : ∃ c < dir.columns s.w, m.x = c * dir.spacing ∧
    ∀ k < m.lines, s.hashtable (s.tableIndex (m.y + k) c) ≠ 0
  same : ∀ k < m.lines, s.sameLine newdata (ptr + s.w * k) ((m.y + k) * s.w + m.x) = true

/-- The first line matches at a table position. -/
structure FirstLine (s : ScrollHasher C dir) (newdata : ℕ → C) (ptr starthash idx : ℕ)
    (p : ℕ × ℕ) : Prop where
  mem : p ∈ s.positions
  index : idx = s.tableIndex p.1 p.2
  hash : s.hashtable idx = starthash
  same : s.sameLine newdata ptr (s.position p) = true

theorem goodOffset_spec (hs : s.WellFormed) (hinx : dir.spacing ∣ inx) {starthash idx : ℕ}
    (h : idx ∈ s.goodOffset newdata ptr starthash maxLines inx iny) :
    ∃ p, s.FirstLine newdata ptr starthash idx p := by
  unfold goodOffset at h
  dsimp only at h
  split at h
  · rename_i hcond
    split at h
    · rename_i hsame
      obtain ⟨hhash, hline⟩ := Bool.and_eq_true_iff.mp hsame
      obtain rfl := List.mem_singleton.mp h
      obtain ⟨-, ⟨hx, hxw⟩, hy, hyh⟩ := hcond
      -- the good offset is horizontal only if every column is a position
      have haligned : dir.spacing ∣ (inx + s.lastOffX : ℤ).toNat := by
        cases dir with
        | vert =>
          rw [hs.offset rfl, add_zero, Int.toNat_natCast]
          exact hinx
        | bothDir => exact one_dvd _
      have hfit : (inx + s.lastOffX : ℤ).toNat + ScrollBlockSize ≤ s.w := by
        have hxw : (inx : ℤ) + s.lastOffX < s.w - 63 := hxw
        show (inx + s.lastOffX : ℤ).toNat + 64 ≤ s.w
        omega
      obtain ⟨hcolumn, hback⟩ := column_of_aligned hs.wide haligned hfit
      refine ⟨((iny + s.lastOffY : ℤ).toNat, (inx + s.lastOffX : ℤ).toNat / dir.spacing),
        mem_positions.mpr ⟨?_, hcolumn⟩, rfl, of_decide_eq_true hhash, ?_⟩
      · show (iny + s.lastOffY : ℤ).toNat < s.h
        omega
      · rw [position, hback]
        exact hline
    · cases h
  · cases h

omit [DecidableEq C] in
/-- The scan stays inside the slice of its bucket. -/
theorem scanned_spec (hs : s.WellFormed) {b idx : ℕ} (h : idx ∈ s.scanned b) :
    ∃ p ∈ s.positions, idx = s.tableIndex p.1 p.2 := by
  unfold scanned at h
  dsimp only at h
  generalize hinc : (if s.totals b / 32 = 0 then 1 else s.totals b / 32) = inc at h
  have hpos : 0 < inc := by
    rw [← hinc]
    split <;> omega
  obtain ⟨i, hi, rfl⟩ := List.mem_map.mp h
  obtain ⟨j, hj, rfl⟩ := List.mem_range'.mp hi
  have hlt : inc * j < s.totals b := by
    have hmul : (j + 1) * inc ≤ s.totals b + inc - 1 := Nat.mul_le_of_le_div _ _ _ hj
    rw [Nat.add_mul, Nat.mul_comm j] at hmul
    omega
  exact hs.indexed b (by omega) _ (Nat.le_add_right _ _) (by omega)

theorem firstLineMatches_spec (hs : s.WellFormed) (hinx : dir.spacing ∣ inx)
    {starthash idx : ℕ}
    (h : idx ∈ s.firstLineMatches newdata ptr starthash maxLines inx iny) :
    ∃ p, s.FirstLine newdata ptr starthash idx p := by
  rcases List.mem_append.mp (List.mem_of_mem_take h) with hgood | hscanned
  · exact goodOffset_spec hs hinx hgood
  · obtain ⟨hmem, hsame⟩ := List.mem_filter.mp hscanned
    obtain ⟨hhash, hline⟩ := Bool.and_eq_true_iff.mp hsame
    obtain ⟨p, hp, rfl⟩ := scanned_spec hs hmem
    have hcolumn := (mem_positions.mp hp).2
    rw [oldy_tableIndex hs.wide hcolumn, oldx_tableIndex hs.wide hcolumn] at hline
    exact ⟨p, hp, rfl, of_decide_eq_true hhash, hline⟩

theorem takeWhile_range'_spec {P : ℕ → Bool} {a n i : ℕ}
    (hi : i < ((List.range' a n).takeWhile P).length) : i < n ∧ P (a + i) = true := by
  have hinit := List.takeWhile_prefix (l := List.range' a n) P
  have hin : i < n := by
    have := hinit.length_le
    rw [List.length_range'] at this
    omega
  have hget : ((List.range' a n).takeWhile P)[i] = a + i := by
    rw [hinit.getElem hi, List.getElem_range', Nat.one_mul]
  exact ⟨hin, hget ▸ List.mem_takeWhile_imp (List.getElem_mem hi)⟩

/-- The lines that are counted are inside and equal; those behind the first one are still
in the table. -/
theorem matchingLines_line (hs : s.WellFormed) (hlines : 0 < maxLines) {starthash idx k : ℕ}
    {p : ℕ × ℕ} (hp : s.FirstLine newdata ptr starthash idx p)
    (hk : k < s.matchingLines newdata ptr maxLines idx) :
    k < min maxLines (s.h - p.1) ∧
      (0 < k → s.hashtable (s.tableIndex (p.1 + k) p.2) ≠ 0) ∧
      s.sameLine newdata (ptr + s.w * k) ((p.1 + k) * s.w + p.2 * dir.spacing) = true := by
  obtain ⟨hmem, hindex, hhash, hfirst⟩ := hp
  obtain ⟨hrow, hcolumn⟩ := mem_positions.mp hmem
  have hy : s.oldy idx = p.1 := hindex ▸ oldy_tableIndex hs.wide hcolumn
  have hx : s.oldx idx = p.2 * dir.spacing := hindex ▸ oldx_tableIndex hs.wide hcolumn
  rcases Nat.eq_zero_or_pos k with rfl | hkpos
  · refine ⟨?_, fun h => absurd h (Nat.lt_irrefl 0), hfirst⟩
    omega
  · have hk' : k - 1 < ((List.range' 1 (min maxLines (s.h - s.oldy idx) - 1)).takeWhile
        fun k => s.hashtable (idx + (k <<< s.hashShift)) ≠ 0 &&
          s.sameLine newdata (ptr + s.w * k)
            ((s.oldy idx + k) * s.w + s.oldx idx)).length := by
      unfold matchingLines at hk
      dsimp only at hk
      omega
    obtain ⟨hmax, hmatch⟩ := takeWhile_range'_spec hk'
    rw [Nat.add_sub_cancel' hkpos] at hmatch
    obtain ⟨hentry, hsame⟩ := Bool.and_eq_true_iff.mp hmatch
    refine ⟨by omega, fun _ => ?_, ?_⟩
    · rw [← tableIndex_add, ← hindex]
      exact of_decide_eq_true hentry
    · rw [← hy, ← hx]
      exact hsame

theorem matchingLines_spec (hs : s.WellFormed) (hlines : 0 < maxLines) {starthash idx : ℕ}
    {p : ℕ × ℕ} (hp : s.FirstLine newdata ptr starthash idx p) (hstart : starthash ≠ 0)
    (hpos : 0 < s.matchingLines newdata ptr maxLines idx) :
    s.Genuine newdata ptr maxLines
      ⟨p.2 * dir.spacing, p.1, s.matchingLines newdata ptr maxLines idx, hpos⟩ := by
  obtain ⟨-, hcolumn⟩ := mem_positions.mp hp.mem
  have hline : ∀ k < s.matchingLines newdata ptr maxLines idx, _ :=
    fun k hk => matchingLines_line hs hlines hp hk
  have hmax := (hline (s.matchingLines newdata ptr maxLines idx - 1) (by omega)).1
  refine ⟨?_, ?_, ⟨p.2, hcolumn, rfl, fun k hk => ?_⟩, fun k hk => (hline k hk).2.2⟩
  · show s.matchingLines newdata ptr maxLines idx ≤ maxLines
    omega
  · show p.1 + s.matchingLines newdata ptr maxLines idx ≤ s.h
    omega
  · rcases Nat.eq_zero_or_pos k with rfl | hkpos
    · show s.hashtable (s.tableIndex p.1 p.2) ≠ 0
      rw [← hp.index, hp.hash]
      exact hstart
    · exact (hline k hk).2.1 hkpos

/-- A pick with any lines is a candidate with its own lines. -/
theorem pickBest_spec {ι : Type*} {lines : ι → ℕ} :
    ∀ {is : List ι} {best : ι × ℕ},
      pickBest maxLines lines is best = best ∨
        ((pickBest maxLines lines is best).1 ∈ is ∧
          (pickBest maxLines lines is best).2 = lines (pickBest maxLines lines is best).1)
  | [], _ => Or.inl rfl
  | i :: is, best => by
    unfold pickBest
    dsimp only
    generalize hbest : (if lines i > best.2 then (i, lines i) else best) = best'
    have hstep : best' = best ∨ best' = (i, lines i) := by
      rw [← hbest]
      split
      · exact Or.inr rfl
      · exact Or.inl rfl
    have hdone : ∀ r, r = best' ∨ (r.1 ∈ is ∧ r.2 = lines r.1) →
        r = best ∨ (r.1 ∈ i :: is ∧ r.2 = lines r.1) := by
      rintro r (rfl | ⟨hmem, hlines⟩)
      · rcases hstep with h | h
        · exact Or.inl h
        · exact Or.inr (by rw [h]; exact ⟨List.mem_cons_self, rfl⟩)
      · exact Or.inr ⟨List.mem_cons_of_mem i hmem, hlines⟩
    split
    · exact hdone _ (Or.inl rfl)
    · exact hdone _ pickBest_spec

end Genuine

/-! ## The good offset -/

section Offset

variable {maxLines inx iny : ℕ}

/-- Only the good offset has changed, and not into a horizontal one for the vertical
hasher. -/
def OffsetOnly (s s' : ScrollHasher C dir) : Prop :=
  ∃ x y, s' = { s with lastOffX := x, lastOffY := y } ∧ (dir = .vert → s.lastOffX = 0 → x = 0)

theorem offsetOnly_refl (s : ScrollHasher C dir) : s.OffsetOnly s :=
  ⟨s.lastOffX, s.lastOffY, rfl, fun _ h => h⟩

theorem OffsetOnly.wellFormed {s' : ScrollHasher C dir} (h : s.OffsetOnly s')
    (hs : s.WellFormed) : s'.WellFormed := by
  obtain ⟨x, y, rfl, hx⟩ := h
  exact ⟨hs.wide, hs.indexed, fun hdir => hx hdir (hs.offset hdir)⟩

theorem Genuine.offsetOnly [DecidableEq C] {s' : ScrollHasher C dir} {newdata : ℕ → C}
    {ptr : ℕ} {m : Match} (h : s.Genuine newdata ptr maxLines m) (hs' : s.OffsetOnly s') :
    s'.Genuine newdata ptr maxLines m := by
  obtain ⟨x, y, rfl, -⟩ := hs'
  exact ⟨h.lines_le, h.bottom, h.column, h.same⟩

theorem offsetOnly_rememberOffset (m : Match) (smallIdx : ℕ) :
    s.OffsetOnly (s.rememberOffset m smallIdx maxLines inx iny) := by
  cases dir with
  | vert =>
    unfold rememberOffset
    dsimp only
    split
    · exact ⟨0, _, rfl, fun _ _ => rfl⟩
    · exact offsetOnly_refl s
  | bothDir =>
    unfold rememberOffset
    dsimp only
    split
    · exact ⟨_, _, rfl, fun h => nomatch h⟩
    · exact offsetOnly_refl s

end Offset

section Reports

variable [DecidableEq C] {newdata : ℕ → C} {hash : List C → ℕ} {ptr maxLines inx iny : ℕ}

theorem offsetOnly_findBestMatch :
    s.OffsetOnly (s.findBestMatch newdata hash ptr maxLines inx iny).1 := by
  unfold findBestMatch
  dsimp only
  split
  · exact offsetOnly_refl s
  split
  · exact offsetOnly_refl s
  · split
    · exact offsetOnly_rememberOffset _ _
    · exact offsetOnly_refl s

/-- A report is a position whose segment is the first line, with its matching lines. -/
theorem findBestMatch_some (hs : s.WellFormed) (hinx : dir.spacing ∣ inx) {m : Match}
    (h : (s.findBestMatch newdata hash ptr maxLines inx iny).2 = some m) :
    ∃ idx p hpos, s.FirstLine newdata ptr (hash (segment newdata ptr)) idx p ∧
      m = ⟨p.2 * dir.spacing, p.1, s.matchingLines newdata ptr maxLines idx, hpos⟩ := by
  unfold findBestMatch at h
  dsimp only at h
  split at h
  · cases h
  split at h
  · cases h
  · rename_i idx rest hmatches
    split at h
    · rename_i hpos
      obtain rfl := Option.some.inj h
      rcases @pickBest_spec maxLines _ (s.matchingLines newdata ptr maxLines) (idx :: rest)
        (idx, 0) with hnone | ⟨hmem, hbest⟩
      · rw [hnone] at hpos
        exact absurd hpos (Nat.lt_irrefl 0)
      · generalize pickBest maxLines (s.matchingLines newdata ptr maxLines) (idx :: rest)
          (idx, 0) = best at *
        obtain ⟨best, lines⟩ := best
        dsimp only at *
        subst hbest
        obtain ⟨p, hp⟩ := firstLineMatches_spec hs hinx (hmatches ▸ hmem)
        have hcolumn := (mem_positions.mp hp.mem).2
        have hy : s.oldy best = p.1 := hp.index ▸ oldy_tableIndex hs.wide hcolumn
        have hx : s.oldx best = p.2 * dir.spacing := hp.index ▸ oldx_tableIndex hs.wide hcolumn
        refine ⟨best, p, hpos, hp, ?_⟩
        congr 1
    · cases h

theorem findBestMatch_spec (hs : s.WellFormed) (hinx : dir.spacing ∣ inx)
    (hlines : 0 < maxLines) (hhash : hash (segment newdata ptr) ≠ 0) :
    s.OffsetOnly (s.findBestMatch newdata hash ptr maxLines inx iny).1 ∧
      ∀ m, (s.findBestMatch newdata hash ptr maxLines inx iny).2 = some m →
        s.Genuine newdata ptr maxLines m := by
  refine ⟨offsetOnly_findBestMatch, fun m hm => ?_⟩
  obtain ⟨idx, p, hpos, hp, rfl⟩ := findBestMatch_some hs hinx hm
  exact matchingLines_spec hs hlines hp hhash hpos

omit [DecidableEq C] in
theorem segment_length (data : ℕ → C) (offset : ℕ) :
    (segment data offset).length = ScrollBlockSize := by
  rw [segment, List.length_map, List.length_range]

theorem lowestLine_lt (total : ℕ → ℕ) : (lowestLine total).1 < ScrollBlockSize := by
  have hfold : ∀ (is : List ℕ) (lowest : ℕ × ℕ), lowest.1 < ScrollBlockSize →
      (∀ i ∈ is, i < ScrollBlockSize) →
      (is.foldl (fun lowest i => if total i < lowest.2 then (i, total i) else lowest)
        lowest).1 < ScrollBlockSize := by
    intro is
    induction is with
    | nil => exact fun _ h _ => h
    | cons i is ih =>
      intro lowest hlowest his
      obtain ⟨hi, his⟩ := List.forall_mem_cons.mp his
      refine ih _ ?_ his
      show (if total i < lowest.2 then (i, total i) else lowest).1 < ScrollBlockSize
      split
      · exact hi
      · exact hlowest
  exact hfold _ _ (by decide) fun i hi => List.mem_range.mp hi

/-- A report from the least frequent line on, extended to the beginning of the
block. -/
theorem Genuine.extend {s : ScrollHasher C .vert} {m : Match} {lowest : ℕ}
    (h : s.Genuine newdata (ptr + s.w * lowest) (ScrollBlockSize - lowest) m)
    (hlowest : lowest < ScrollBlockSize) (hlines : m.lines = ScrollBlockSize - lowest)
    (hx : m.x = inx) (hy : lowest ≤ m.y)
    (hbegin : ∀ i < lowest,
      s.hashtable (s.tableIndex (m.y - lowest + i) (inx / ScrollBlockSize)) ≠ 0 ∧
        s.sameLine newdata (ptr + s.w * i) ((m.y - lowest + i) * s.w + m.x) = true)
    (hpos : 0 < ScrollBlockSize) :
    s.Genuine newdata ptr ScrollBlockSize ⟨m.x, m.y - lowest, ScrollBlockSize, hpos⟩ := by
  have hlowest : lowest < 64 := hlowest
  have hlines : m.lines = 64 - lowest := hlines
  obtain ⟨-, hbottom, ⟨c, hc, hmx, hvalid⟩, hsame⟩ := h
  have hcolumn : inx / ScrollBlockSize = c := by
    rw [← hx, hmx]
    exact Nat.mul_div_cancel c (by decide)
  refine ⟨le_rfl, ?_, ⟨c, hc, hmx, fun k hk => ?_⟩, fun k hk => ?_⟩
  · show m.y - lowest + 64 ≤ s.h
    omega
  · have hk : k < 64 := hk
    show s.hashtable (s.tableIndex (m.y - lowest + k) c) ≠ 0
    by_cases hfirst : k < lowest
    · rw [← hcolumn]
      exact (hbegin k hfirst).1
    · have hrow : m.y - lowest + k = m.y + (k - lowest) := by omega
      rw [hrow]
      exact hvalid (k - lowest) (by omega)
  · have hk : k < 64 := hk
    show s.sameLine newdata (ptr + s.w * k) ((m.y - lowest + k) * s.w + m.x) = true
    by_cases hfirst : k < lowest
    · exact (hbegin k hfirst).2
    · have hrow : m.y - lowest + k = m.y + (k - lowest) := by omega
      have hptr : ptr + s.w * k = ptr + s.w * lowest + s.w * (k - lowest) := by
        rw [Nat.add_assoc, ← Nat.mul_add, Nat.add_sub_cancel' (not_lt.mp hfirst)]
      rw [hrow, hptr]
      exact hsame (k - lowest) (by omega)

theorem offsetOnly_findBlock : s.OffsetOnly (s.findBlock newdata hash ptr inx iny).1 := by
  cases dir with
  | bothDir => exact offsetOnly_refl s
  | vert =>
    unfold findBlock
    dsimp only
    split
    · exact offsetOnly_refl s
    split
    · exact offsetOnly_refl s
    split
    · exact offsetOnly_findBestMatch
    · split
      · exact offsetOnly_findBestMatch
      · exact offsetOnly_findBestMatch

/-- A report is one that was found from the least frequent line on, with the lines before
it. -/
theorem findBlock_some {s : ScrollHasher C .vert} {m : Match}
    (h : (s.findBlock newdata hash ptr inx iny).2 = some m) :
    ∃ lowest < ScrollBlockSize, ∃ m' : Match,
      (s.findBestMatch newdata hash (ptr + s.w * lowest) (ScrollBlockSize - lowest) inx
        (iny + lowest)).2 = some m' ∧
      (m'.lines = ScrollBlockSize - lowest ∧ m'.x = inx ∧ lowest ≤ m'.y) ∧
      (∀ i < lowest,
        s.hashtable (s.tableIndex (m'.y - lowest + i) (inx / ScrollBlockSize)) ≠ 0 ∧
          s.sameLine newdata (ptr + s.w * i) ((m'.y - lowest + i) * s.w + m'.x) = true) ∧
      m = ⟨m'.x, m'.y - lowest, ScrollBlockSize, by decide⟩ := by
  unfold findBlock at h
  dsimp only at h
  split at h
  · cases h
  split at h
  · cases h
  generalize hlow : (lowestLine fun i => s.totals (hash (segment newdata (ptr + s.w * i)) %
    ScrollDirection.vert.numTotals)).1 = lowest at h
  have hlowest : lowest < ScrollBlockSize := hlow ▸ lowestLine_lt _
  split at h
  · cases h
  · rename_i m' hfound
    split at h
    · rename_i hcond
      obtain ⟨hlines, hx, hy, hbegin⟩ := hcond
      obtain rfl := Option.some.inj h
      refine ⟨lowest, hlowest, m', hfound, ⟨hlines, hx, hy⟩, fun i hi => ?_, rfl⟩
      have hline := List.all_eq_true.mp hbegin i (List.mem_range.mpr hi)
      obtain ⟨hentry, hsame⟩ := Bool.and_eq_true_iff.mp hline
      exact ⟨of_decide_eq_true hentry, hsame⟩
    · cases h

theorem findBlock_spec (hs : s.WellFormed) (hinx : dir.spacing ∣ inx)
    (hhash : ∀ l : List C, l.length = ScrollBlockSize → hash l ≠ 0) :
    s.OffsetOnly (s.findBlock newdata hash ptr inx iny).1 ∧
      ∀ m, (s.findBlock newdata hash ptr inx iny).2 = some m →
        s.Genuine newdata ptr ScrollBlockSize m ∧ m.lines = ScrollBlockSize := by
  refine ⟨offsetOnly_findBlock, fun m hm => ?_⟩
  cases dir with
  | bothDir => exact nomatch hm
  | vert =>
    obtain ⟨lowest, hlowest, m', hfound, ⟨hlines, hx, hy⟩, hbegin, rfl⟩ := findBlock_some hm
    obtain ⟨-, hgenuine⟩ := @findBestMatch_spec _ _ s _ newdata hash _ _ inx
      (iny + lowest) hs hinx
      (Nat.sub_pos_of_lt hlowest) (hhash _ (segment_length newdata (ptr + s.w * lowest)))
    exact ⟨(hgenuine m' hfound).extend hlowest hlines hx hy hbegin _, rfl⟩

end Reports

end ScrollHasher

end KasmVNC.Rfb
