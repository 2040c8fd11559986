import KasmVNC.Lib.Cells
import KasmVNC.Rfb.Adler32
import KasmVNC.Rfb.ScrollHasher

/-!
# The index table of the scroll hashers

`calcHashes` sorts the positions of its table by the buckets of their hashes: it counts while it
hashes, gives every bucket that is not empty its start, and goes over the table once more to place
the positions. The first pass addresses the table by row and column, the last one by a pointer
that moves on by a row. What the starts and cursors of empty buckets hold is never looked at.
-/

namespace KasmVNC.Rfb

open KasmVNC.Lib

/-- The framebuffer that is hashed. The number of its bytes is an `int`. -/
structure OldFb where
  w : ℕ
  h : ℕ
  d : ℕ
  data : ℕ → Byte
  wide : ScrollHasher.Wide w
  depth : 0 < d
  size : w * h * d < 2 ^ 31

/-- What is derived from the size of the framebuffer. -/
structure TableLayout where
  w : ℕ
  h : ℕ
  d : ℕ
  lineBytes : ℕ
  blockBytes : ℕ
  hashw : ℕ
  hashAnd : ℕ
  hashShift : ℕ

structure HashTables (dir : ScrollDirection) where
  layout : TableLayout
  hashtable : Cells ℕ
  idxtable : Cells ℕ
  totals : Cells ℕ
  starts : Cells ℕ
  curs : Cells ℕ
  olddata : Cells Byte
  lastOffX : ℤ
  lastOffY : ℤ

namespace ScrollDirection

/-- The columns at which the loops over a line stop: blocks that are whole, or every column from
which a block is. -/
def lineLoop (w : ℕ) : ScrollDirection → List ℕ
  | vert => (List.range' 0 ((w + 63) / 64) 64).takeWhile fun x => ¬w - x < ScrollBlockSize
  | bothDir => List.range (bothDir.columns w)

def layout (dir : ScrollDirection) (w h d : ℕ) : TableLayout :=
  let hashw := npow (dir.columns w % 2 ^ 32)
  ⟨w, h, d, w * d, ScrollBlockSize * d, hashw, hashw - 1, pow2shift hashw⟩

/-- The number of entries that are allocated for the index table. -/
def indexSize (l : TableLayout) : ScrollDirection → ℕ
  | vert => l.hashw * l.h
  | bothDir => l.w * l.h

/-- What is put into the table at a row and a column: an XXH64, cut down to 32 bits, or the
rolling checksum. -/
def hashAt (xxh64 : List Byte → BitVec 64) (l : TableLayout) (olddata : ℕ → Byte) (y column : ℕ) :
    ScrollDirection → ℕ
  | vert => ((xxh64 (Adler32.window olddata (y * l.lineBytes + column * l.blockBytes)
      l.blockBytes)).setWidth 32).toNat
  | bothDir => (Adler32.tableHash l.w l.d olddata y column).toNat

end ScrollDirection

namespace HashTables

variable {dir : ScrollDirection}

/-! ## The loops -/

/-- Hash a block and count it. -/
def countBlock (dir : ScrollDirection) (xxh64 : List Byte → BitVec 64) (l : TableLayout)
    (olddata : Cells Byte) (y : ℕ) (t : Cells ℕ × Cells ℕ) (x : ℕ) :
    Option (Cells ℕ × Cells ℕ) := do
  let idx := (y <<< l.hashShift) + x / dir.spacing
  guard (y * l.lineBytes + x * l.d + l.blockBytes ≤ olddata.size)
  let hashtable ← t.1.store idx (dir.hashAt xxh64 l olddata.cell y (x / dir.spacing))
  let hash ← hashtable.load idx
  let total ← t.2.load (hash % dir.numTotals)
  let totals ← t.2.store (hash % dir.numTotals) ((total + 1) % 2 ^ 32)
  return (hashtable, totals)

/-- Update a starting position: the start, the cursor and the sum. -/
def startBucket (totals : Cells ℕ) (t : Cells ℕ × Cells ℕ × ℕ) (i : ℕ) :
    Option (Cells ℕ × Cells ℕ × ℕ) := do
  let total ← totals.load i
  if total = 0 then return t
  else
    let curs ← t.2.1.store i (t.2.2 % 2 ^ 32)
    let starts ← t.1.store i (t.2.2 % 2 ^ 32)
    return (starts, curs, t.2.2 + total)

/-- Update the index table: the cursors, the table and the position that is next. -/
def placeBlock (dir : ScrollDirection) (hashtable : Cells ℕ) (src : ℕ)
    (t : Cells ℕ × Cells ℕ × ℕ) (x : ℕ) : Option (Cells ℕ × Cells ℕ × ℕ) := do
  let val ← hashtable.load (src + x / dir.spacing)
  let smallIdx := val % dir.numTotals
  let newpos ← t.1.load smallIdx
  let curs ← t.1.store smallIdx ((newpos + 1) % 2 ^ 32)
  let idxtable ← t.2.1.store newpos (t.2.2 % 2 ^ 32)
  return (curs, idxtable, t.2.2 + 1)

/-- A row of the index table. The pointer into the table moves on by a row. -/
def placeRow (dir : ScrollDirection) (l : TableLayout) (hashtable : Cells ℕ)
    (t : Cells ℕ × Cells ℕ × ℕ) (y : ℕ) : Option (Cells ℕ × Cells ℕ × ℕ) := do
  let (curs, idxtable, _) ← (dir.lineLoop l.w).foldlM (placeBlock dir hashtable t.2.2)
    (t.1, t.2.1, y <<< l.hashShift)
  return (curs, idxtable, t.2.2 + l.hashw)

/-- `realloc` of the three tables that depend on the size. -/
def reallocate (s : HashTables dir) (fb : OldFb) : HashTables dir :=
  let l := dir.layout fb.w fb.h fb.d
  { s with
    layout := l
    hashtable := s.hashtable.resize (l.hashw * l.h)
    idxtable := s.idxtable.resize (dir.indexSize l)
    olddata := s.olddata.resize (l.w * l.h * l.d) }

def calcHashes (xxh64 : List Byte → BitVec 64) (s : HashTables dir) (fb : OldFb) :
    Option (HashTables dir) := do
  let s := if s.layout.w ≠ fb.w ∨ s.layout.h ≠ fb.h then s.reallocate fb else s
  let l := s.layout
  let olddata ← s.olddata.fill (l.w * l.h * l.d) fb.data
  let totals ← s.totals.fill dir.numTotals fun _ => 0
  let (hashtable, totals) ← (List.range l.h).foldlM
    (fun t y => (dir.lineLoop l.w).foldlM (countBlock dir xxh64 l olddata y) t)
    (s.hashtable, totals)
  let (starts, curs, _) ← (List.range dir.numTotals).foldlM (startBucket totals)
    (s.starts, s.curs, 0)
  let (curs, idxtable, _) ← (List.range l.h).foldlM (placeRow dir l hashtable)
    (curs, s.idxtable, 0)
  return { s with
    hashtable, idxtable, totals, starts, curs, olddata, lastOffX := 0, lastOffY := 0 }

/-! ## Runs -/

/-- A new hasher. Nothing is written into its arrays, and those that depend on the size are
null. -/
def new (dir : ScrollDirection) (memory : ℕ → ℕ) (bytes : ℕ → Byte) : HashTables dir where
  layout := ⟨0, 0, 0, 0, 0, 0, 0, 0⟩
  hashtable := ⟨0, memory⟩
  idxtable := ⟨0, memory⟩
  totals := ⟨dir.numTotals, memory⟩
  starts := ⟨dir.numTotals, memory⟩
  curs := ⟨dir.numTotals, memory⟩
  olddata := ⟨0, bytes⟩
  lastOffX := 0
  lastOffY := 0

inductive Call
  | calcHashes (fb : OldFb)
  /-- `invalidate` changes entries of the table, `findBestMatch` and `findBlock` the offset. -/
  | search (entries : ℕ → ℕ) (lastOffX lastOffY : ℤ)

def step (xxh64 : List Byte → BitVec 64) (s : HashTables dir) : Call → Option (HashTables dir)
  | .calcHashes fb => s.calcHashes xxh64 fb
  | .search entries lastOffX lastOffY =>
    some { s with hashtable := { s.hashtable with cell := entries }, lastOffX, lastOffY }

/-! ## What the tables say -/

/-- The place of a position in the tables. -/
def tableIndex (s : HashTables dir) (y column : ℕ) : ℕ := y * s.layout.hashw + column

/-- The entries of the index table that belong to a bucket. -/
def slice (s : HashTables dir) (b : ℕ) : List ℕ :=
  (List.range (s.totals.cell b)).map fun j => s.idxtable.cell (s.starts.cell b + j)

/-- The slice of a bucket lies within the index table, and holds the positions whose hash falls
into it, each one once and in increasing order. -/
structure Indexed (s : HashTables dir) (xxh64 : List Byte → BitVec 64) (b : ℕ) : Prop where
  inside : s.totals.cell b ≠ 0 → s.starts.cell b + s.totals.cell b ≤ s.idxtable.size
  increasing : (s.slice b).Pairwise (· < ·)
  positions : ∀ idx, idx ∈ s.slice b ↔ ∃ y < s.layout.h, ∃ column < dir.columns s.layout.w,
    idx = s.tableIndex y column ∧
      s.hashtable.cell idx = dir.hashAt xxh64 s.layout s.olddata.cell y column ∧
      s.hashtable.cell idx % dir.numTotals = b

end HashTables

/-! ## The order of the loops -/

/-- The positions of the first `y` rows, and of the first `column` columns of the next one. -/
def visited (columns y column : ℕ) : List (ℕ × ℕ) :=
  ((List.range y).flatMap fun row => (List.range columns).map (row, ·)) ++
    (List.range column).map (y, ·)

section Visited

variable {columns y column : ℕ}

theorem visited_succ : visited columns y (column + 1) =
    visited columns y column ++ [(y, column)] := by
  rw [visited, visited, List.range_succ, List.map_append, ← List.append_assoc]
  rfl

/-- At the end of a row the next one begins. -/
theorem visited_row : visited columns y columns = visited columns (y + 1) 0 := by
  rw [visited, visited, List.range_succ, List.flatMap_append, List.flatMap_singleton,
    List.range_zero, List.map_nil, List.append_nil]

theorem length_visited : (visited columns y column).length = y * columns + column := by
  rw [visited, List.length_append, List.length_flatMap, List.length_map, List.length_range]
  simp only [List.length_map, List.length_range, List.map_const', List.sum_replicate, smul_eq_mul]

theorem mem_visited {p : ℕ × ℕ} : p ∈ visited columns y column ↔
    p.1 < y ∧ p.2 < columns ∨ p.1 = y ∧ p.2 < column := by
  obtain ⟨row, c⟩ := p
  simp only [visited, List.mem_append, List.mem_flatMap, List.mem_range, List.mem_map,
    Prod.mk.injEq]
  grind

theorem visited_mono {h : ℕ} (hy : y ≤ h) : visited columns y 0 <+: visited columns h 0 := by
  rw [visited, visited, List.range_zero, List.map_nil, List.map_nil, List.append_nil,
    List.append_nil]
  obtain ⟨k, rfl⟩ := Nat.exists_eq_add_of_le hy
  rw [List.range_add, List.flatMap_append]
  exact List.prefix_append _ _

/-- A position comes right behind those that are visited before it. -/
theorem visited_split {h : ℕ} (hy : y < h) (hcolumn : column < columns) :
    ∃ after, visited columns h 0 = visited columns y column ++ (y, column) :: after := by
  have hrow : visited columns y (column + 1) <+: visited columns y columns := by
    obtain ⟨k, rfl⟩ := Nat.exists_eq_add_of_lt hcolumn
    rw [visited, visited, Nat.add_right_comm, List.range_add, List.map_append,
      ← List.append_assoc]
    exact List.prefix_append _ _
  rw [visited_row] at hrow
  obtain ⟨after, hafter⟩ := hrow.trans (visited_mono (h := h) hy)
  refine ⟨after, ?_⟩
  rw [← hafter, visited_succ, List.append_assoc, List.singleton_append]

/-- In rows of some width the places of the positions increase. -/
theorem visited_increasing {width : ℕ} (hcolumns : columns ≤ width) (h : ℕ) :
    (visited columns h 0).Pairwise fun p q => p.1 * width + p.2 < q.1 * width + q.2 := by
  rw [visited, List.range_zero, List.map_nil, List.append_nil, List.pairwise_flatMap]
  constructor
  · intro row _
    refine List.pairwise_map.mpr (List.pairwise_lt_range.imp fun hlt => ?_)
    exact Nat.add_lt_add_left hlt _
  · refine List.pairwise_lt_range.imp fun {row row'} hlt p hp q hq => ?_
    obtain ⟨c, hc, rfl⟩ := List.mem_map.mp hp
    obtain ⟨c', -, rfl⟩ := List.mem_map.mp hq
    have hc := List.mem_range.mp hc
    have hnext : (row + 1) * width ≤ row' * width := Nat.mul_le_mul_right width hlt
    rw [Nat.succ_mul] at hnext
    show row * width + c < row' * width + c'
    omega

theorem takeWhile_range {p : ℕ → Bool} {k n : ℕ} (hk : k ≤ n) (hlt : ∀ i < k, p i = true)
    (hend : k < n → p k = false) : (List.range n).takeWhile p = List.range k := by
  obtain ⟨r, rfl⟩ := Nat.exists_eq_add_of_le hk
  rw [List.range_add, List.takeWhile_append_of_pos fun i hi => hlt i (List.mem_range.mp hi)]
  cases r with
  | zero => simp
  | succ r =>
    rw [List.range_succ_eq_map, List.map_cons, Nat.add_zero, List.takeWhile_cons_of_neg,
      List.append_nil]
    rw [hend (by omega)]
    exact Bool.false_ne_true

end Visited

namespace ScrollDirection

theorem lineLoop_eq (dir : ScrollDirection) (w : ℕ) :
    dir.lineLoop w = (List.range (dir.columns w)).map (· * dir.spacing) := by
  cases dir with
  | bothDir =>
    rw [lineLoop, spacing]
    simp only [Nat.mul_one, List.map_id']
  | vert =>
    have hrange : List.range' 0 ((w + 63) / 64) 64 =
        (List.range ((w + 63) / 64)).map (· * 64) := by
      refine List.ext_getElem (by simp) fun i hi hi' => ?_
      simp [Nat.mul_comm]
    show (List.range' 0 ((w + 63) / 64) 64).takeWhile _ = (List.range (w / 64)).map (· * 64)
    rw [hrange, List.takeWhile_map, takeWhile_range]
    · omega
    · intro i hi
      have hwhole : ¬w - i * 64 < 64 := by omega
      exact decide_eq_true hwhole
    · intro _
      have hcut : w - w / 64 * 64 < 64 := by omega
      exact decide_eq_false (not_not.mpr hcut)

theorem numTotals_pos (dir : ScrollDirection) : 0 < dir.numTotals := by
  cases dir <;> decide

theorem columns_le {dir : ScrollDirection} {w : ℕ} (h : ScrollHasher.Wide w) :
    dir.columns w ≤ w := by
  cases dir with
  | vert => exact Nat.div_le_self w 64
  | bothDir =>
    rw [ScrollHasher.columns_bothDir h]
    exact Nat.sub_le w 63

end ScrollDirection

/-! ## The size of the tables -/

namespace TableLayout

/-- A layout that a framebuffer has led to. -/
structure Fits (dir : ScrollDirection) (l : TableLayout) : Prop where
  wide : ScrollHasher.Wide l.w
  layout : l = dir.layout l.w l.h l.d
  pixels : l.w * l.h < 2 ^ 31

variable {dir : ScrollDirection} {l : TableLayout}

theorem Fits.hashw_eq (h : l.Fits dir) : l.hashw = npow (dir.columns l.w) := by
  have hlayout : l.hashw = npow (dir.columns l.w % 2 ^ 32) :=
    congrArg TableLayout.hashw h.layout
  rw [hlayout, Nat.mod_eq_of_lt ((ScrollHasher.columns_pos h.wide).2.trans (by decide))]

/-- Rows are padded to a power of two. -/
theorem Fits.padded (h : l.Fits dir) :
    l.hashw = 2 ^ l.hashShift ∧ dir.columns l.w ≤ l.hashw := by
  obtain ⟨hpos, hlt⟩ := @ScrollHasher.columns_pos dir _ h.wide
  obtain ⟨k, hk, hpow, hle⟩ := npow_spec hpos.ne' hlt
  have hhashw : l.hashw = 2 ^ k := h.hashw_eq.trans hpow
  have hshift : l.hashShift = k := by
    have hlayout := congrArg TableLayout.hashShift h.layout
    have hsame := congrArg TableLayout.hashw h.layout
    have hpow2 : l.hashShift = pow2shift l.hashw := hlayout.trans (congrArg pow2shift hsame.symm)
    rw [hpow2, hhashw, pow2shift_two_pow hk]
  rw [hshift, hhashw]
  exact ⟨rfl, hle⟩

theorem Fits.shift (h : l.Fits dir) (y column : ℕ) :
    (y <<< l.hashShift) + column = y * l.hashw + column := by
  rw [Nat.shiftLeft_eq, h.padded.1]

/-- An index is inside the table of hashes. -/
theorem Fits.index_lt (h : l.Fits dir) {y column : ℕ} (hy : y < l.h)
    (hcolumn : column < dir.columns l.w) : y * l.hashw + column < l.hashw * l.h := by
  have hle := h.padded.2
  have hrow : (y + 1) * l.hashw ≤ l.h * l.hashw := Nat.mul_le_mul_right _ hy
  rw [Nat.succ_mul, Nat.mul_comm l.h] at hrow
  omega

/-- An index fits into 32 bits. -/
theorem Fits.entries_lt (h : l.Fits dir) : l.hashw * l.h < 2 ^ 32 := by
  obtain ⟨hpos, hlt⟩ := @ScrollHasher.columns_pos dir _ h.wide
  have hdouble : l.hashw ≤ 2 * l.w := by
    rw [h.hashw_eq]
    exact (npow_le_double hpos.ne' hlt).trans
      (Nat.mul_le_mul_left 2 (ScrollDirection.columns_le h.wide))
  have hpixels := h.pixels
  have hprod := Nat.mul_le_mul_right l.h hdouble
  rw [Nat.mul_assoc] at hprod
  omega

/-- The index table has room for all positions. -/
theorem Fits.positions_le (h : l.Fits dir) :
    l.h * dir.columns l.w ≤ dir.indexSize l ∧ l.h * dir.columns l.w < 2 ^ 32 := by
  have hle : l.h * dir.columns l.w ≤ l.hashw * l.h := by
    rw [Nat.mul_comm]
    exact Nat.mul_le_mul_right _ h.padded.2
  refine ⟨?_, Nat.lt_of_le_of_lt hle h.entries_lt⟩
  cases dir with
  | vert => exact hle
  | bothDir =>
    rw [Nat.mul_comm]
    exact Nat.mul_le_mul_right _ (ScrollDirection.columns_le h.wide)

/-- A block is inside the framebuffer. -/
theorem Fits.block_le (h : l.Fits dir) {y column : ℕ} (hy : y < l.h)
    (hcolumn : column < dir.columns l.w) :
    y * l.lineBytes + column * dir.spacing * l.d + l.blockBytes ≤ l.w * l.h * l.d := by
  have hline : l.lineBytes = l.w * l.d := congrArg TableLayout.lineBytes h.layout
  have hblock : l.blockBytes = ScrollBlockSize * l.d := congrArg TableLayout.blockBytes h.layout
  have hinside := ScrollHasher.position_lt h.wide hcolumn
  calc y * l.lineBytes + column * dir.spacing * l.d + l.blockBytes
      = (y * l.w + (column * dir.spacing + ScrollBlockSize)) * l.d := by
        rw [hline, hblock]
        ring
    _ ≤ (y * l.w + l.w) * l.d := Nat.mul_le_mul_right _ (Nat.add_le_add_left hinside _)
    _ = (y + 1) * l.w * l.d := by rw [Nat.succ_mul]
    _ ≤ l.h * l.w * l.d := Nat.mul_le_mul_right _ (Nat.mul_le_mul_right _ hy)
    _ = l.w * l.h * l.d := by rw [Nat.mul_comm l.h]

end TableLayout

namespace HashTables

variable {dir : ScrollDirection} {xxh64 : List Byte → BitVec 64} {l : TableLayout}
  {olddata : Cells Byte}

/-! ## Counting -/

/-- The place of a position in the tables, and the bucket of its hash. -/
def place (l : TableLayout) (p : ℕ × ℕ) : ℕ := p.1 * l.hashw + p.2

def bucketOf (dir : ScrollDirection) (xxh64 : List Byte → BitVec 64) (l : TableLayout)
    (olddata : Cells Byte) (p : ℕ × ℕ) : ℕ :=
  dir.hashAt xxh64 l olddata.cell p.1 p.2 % dir.numTotals

theorem bucketOf_lt (p : ℕ × ℕ) : bucketOf dir xxh64 l olddata p < dir.numTotals :=
  Nat.mod_lt _ dir.numTotals_pos

theorem place_inj (hl : l.Fits dir) {p q : ℕ × ℕ} (hp : p.2 < dir.columns l.w)
    (hq : q.2 < dir.columns l.w) (h : place l p = place l q) : p = q := by
  have hle := hl.padded.2
  have hpos : 0 < l.hashw := Nat.lt_of_lt_of_le (Nat.zero_lt_of_lt hp) hle
  have hrow := congrArg (· / l.hashw) h
  have hcolumn := congrArg (· % l.hashw) h
  simp only [place, Nat.mul_comm _ l.hashw, Nat.mul_add_div hpos, Nat.mul_add_mod,
    Nat.div_eq_of_lt (hp.trans_le hle), Nat.div_eq_of_lt (hq.trans_le hle),
    Nat.mod_eq_of_lt (hp.trans_le hle), Nat.mod_eq_of_lt (hq.trans_le hle)] at hrow hcolumn
  exact Prod.ext hrow hcolumn

/-- The tables when some positions have been counted. -/
structure Counted (dir : ScrollDirection) (xxh64 : List Byte → BitVec 64) (l : TableLayout)
    (olddata : Cells Byte) (done : List (ℕ × ℕ)) (t : Cells ℕ × Cells ℕ) : Prop where
  hashSize : t.1.size = l.hashw * l.h
  totalsSize : t.2.size = dir.numTotals
  hashes : ∀ p ∈ done, t.1.cell (place l p) = dir.hashAt xxh64 l olddata.cell p.1 p.2
  totals : ∀ b < dir.numTotals,
    t.2.cell b = bucketTotals (bucketOf dir xxh64 l olddata) done b

theorem bucketTotals_le {ι : Type*} (key : ι → ℕ) (items : List ι) (b : ℕ) :
    bucketTotals key items b ≤ items.length := by
  rw [bucketTotals_eq]
  exact List.length_filter_le _ _

theorem Counted.step (hl : l.Fits dir) (hdata : olddata.size = l.w * l.h * l.d) {y column : ℕ}
    (hy : y < l.h) (hcolumn : column < dir.columns l.w) {t : Cells ℕ × Cells ℕ}
    (h : Counted dir xxh64 l olddata (visited (dir.columns l.w) y column) t) :
    Returns (countBlock dir xxh64 l olddata y t (column * dir.spacing))
      (Counted dir xxh64 l olddata (visited (dir.columns l.w) y (column + 1))) := by
  have hspacing : column * dir.spacing / dir.spacing = column :=
    Nat.mul_div_cancel _ (by cases dir <;> decide)
  have hplace : place l (y, column) < t.1.size := h.hashSize ▸ hl.index_lt hy hcolumn
  generalize hhash : dir.hashAt xxh64 l olddata.cell y column = hash
  have hbucket : hash % dir.numTotals = bucketOf dir xxh64 l olddata (y, column) := by
    rw [bucketOf, hhash]
  have hlt : hash % dir.numTotals < dir.numTotals := Nat.mod_lt _ dir.numTotals_pos
  have htotal := h.totals _ hlt
  -- the count stays below the number of positions
  have hcount : t.2.cell (hash % dir.numTotals) + 1 < 2 ^ 32 := by
    have hle := bucketTotals_le (bucketOf dir xxh64 l olddata)
      (visited (dir.columns l.w) y column) (hash % dir.numTotals)
    have hpositions := hl.positions_le.2
    have hrow : (y + 1) * dir.columns l.w ≤ l.h * dir.columns l.w := Nat.mul_le_mul_right _ hy
    rw [length_visited, ← htotal] at hle
    rw [Nat.succ_mul] at hrow
    omega
  unfold countBlock
  rw [hspacing, hl.shift, hhash]
  refine Cells.returns_guard (hdata ▸ hl.block_le hy hcolumn) (Cells.returns_store hplace
    (Cells.returns_load hplace ?_))
  dsimp only
  rw [Function.update_self]
  refine Cells.returns_load (h.totalsSize ▸ hlt) (Cells.returns_store (h.totalsSize ▸ hlt)
    (Returns.done ⟨h.hashSize, h.totalsSize, fun p hp => ?_, fun b hb => ?_⟩))
  · dsimp only
    rw [visited_succ, List.mem_append, List.mem_singleton] at hp
    rcases hp with hp | rfl
    · have hp2 : p.2 < dir.columns l.w := by
        rcases mem_visited.mp hp with hrow | hrow
        · exact hrow.2
        · exact hrow.2.trans hcolumn
      by_cases heq : place l p = place l (y, column)
      · obtain rfl := place_inj hl hp2 hcolumn heq
        exact (Function.update_self _ _ _).trans hhash.symm
      · exact (Function.update_of_ne heq _ _).trans (h.hashes p hp)
    · exact (Function.update_self _ _ _).trans hhash.symm
  · dsimp only
    rw [visited_succ, bucketTotals_concat, ← hbucket, Nat.mod_eq_of_lt hcount, htotal]
    rcases eq_or_ne b (hash % dir.numTotals) with rfl | hne
    · rw [Function.update_self, Function.update_self]
    · rw [Function.update_of_ne hne, Function.update_of_ne hne, h.totals b hb]

/-- All positions of the tables. -/
def allPositions (dir : ScrollDirection) (l : TableLayout) : List (ℕ × ℕ) :=
  visited (dir.columns l.w) l.h 0

/-- A loop over the columns of a row. -/
theorem returns_line {σ : Type} {f : σ → ℕ → Option σ} {s : σ} (I : ℕ → σ → Prop) (h : I 0 s)
    (hbody : ∀ column < dir.columns l.w, ∀ s, I column s →
      Returns (f s (column * dir.spacing)) (I (column + 1))) :
    Returns ((dir.lineLoop l.w).foldlM f s) (I (dir.columns l.w)) := by
  rw [dir.lineLoop_eq, List.foldlM_map]
  exact Returns.foldlM_range I h hbody

theorem counted_all (hl : l.Fits dir) (hdata : olddata.size = l.w * l.h * l.d)
    {t : Cells ℕ × Cells ℕ} (h : Counted dir xxh64 l olddata [] t) :
    Returns ((List.range l.h).foldlM
        (fun t y => (dir.lineLoop l.w).foldlM (countBlock dir xxh64 l olddata y) t) t)
      (Counted dir xxh64 l olddata (allPositions dir l)) := by
  refine Returns.foldlM_range
    (fun y => Counted dir xxh64 l olddata (visited (dir.columns l.w) y 0)) h fun y hy t ht => ?_
  rw [← visited_row]
  exact returns_line
    (fun column => Counted dir xxh64 l olddata (visited (dir.columns l.w) y column)) ht fun column hcolumn t ht => ht.step hl hdata hy hcolumn

/-! ## Starting positions -/

/-- The starts and the cursors of the buckets before one. -/
structure Started (dir : ScrollDirection) (totals : ℕ → ℕ) (n : ℕ) (t : Cells ℕ × Cells ℕ × ℕ) :
    Prop where
  startsSize : t.1.size = dir.numTotals
  cursSize : t.2.1.size = dir.numTotals
  starts : ∀ b < n, totals b ≠ 0 → t.1.cell b = itemsBefore totals b
  curs : ∀ b < n, totals b ≠ 0 → t.2.1.cell b = itemsBefore totals b
  sum : t.2.2 = itemsBefore totals n

theorem started_all {counts : Cells ℕ} {totals : ℕ → ℕ} (hsize : counts.size = dir.numTotals)
    (hcounts : ∀ b < dir.numTotals, counts.cell b = totals b)
    (hfit : itemsBefore totals dir.numTotals < 2 ^ 32) {t : Cells ℕ × Cells ℕ × ℕ}
    (h : Started dir totals 0 t) :
    Returns ((List.range dir.numTotals).foldlM (startBucket counts) t)
      (Started dir totals dir.numTotals) := by
  refine Returns.foldlM_range (Started dir totals) h fun n hn t ht => ?_
  unfold startBucket
  refine Cells.returns_load (hsize ▸ hn) ?_
  have hnext : itemsBefore totals (n + 1) = itemsBefore totals n + totals n :=
    itemsBefore_succ totals n
  rw [hcounts n hn]
  split
  · next hempty =>
      refine Returns.done ⟨ht.startsSize, ht.cursSize, fun b hb hne => ?_, fun b hb hne => ?_, ?_⟩
      · refine ht.starts b (Nat.lt_of_le_of_ne (Nat.le_of_lt_succ hb) ?_) hne
        exact fun heq => hne (heq ▸ hempty)
      · refine ht.curs b (Nat.lt_of_le_of_ne (Nat.le_of_lt_succ hb) ?_) hne
        exact fun heq => hne (heq ▸ hempty)
      · rw [hnext, hempty]
        exact ht.sum
  · have hsum : t.2.2 % 2 ^ 32 = itemsBefore totals n := by
      rw [ht.sum]
      exact Nat.mod_eq_of_lt ((itemsBefore_mono totals hn.le).trans_lt hfit)
    have hput : ∀ {a : Cells ℕ}, (∀ b < n, totals b ≠ 0 → a.cell b = itemsBefore totals b) →
        ∀ b < n + 1, totals b ≠ 0 →
          Function.update a.cell n (t.2.2 % 2 ^ 32) b = itemsBefore totals b := by
      intro a ha b hb hne
      rcases Nat.lt_succ_iff_lt_or_eq.mp hb with hlt | rfl
      · rw [Function.update_of_ne (Nat.ne_of_lt hlt), ha b hlt hne]
      · rw [Function.update_self, hsum]
    refine Cells.returns_store (ht.cursSize ▸ hn) (Cells.returns_store (ht.startsSize ▸ hn)
      (Returns.done ⟨ht.startsSize, ht.cursSize, hput ht.starts, hput ht.curs, ?_⟩))
    rw [hnext]
    exact congrArg (· + totals n) ht.sum

/-! ## Placing -/

/-- The cursors and the index table when some positions have been placed. -/
structure Placed (dir : ScrollDirection) (l : TableLayout) (key : ℕ × ℕ → ℕ)
    (start : (ℕ → ℕ) × (ℕ → ℕ)) (done : List (ℕ × ℕ)) (curs idxtable : Cells ℕ) : Prop where
  cursSize : curs.size = dir.numTotals
  idxSize : idxtable.size = dir.indexSize l
  placed : (curs.cell, idxtable.cell) = placeItems key (place l) done start

section Place

variable {hashtable : Cells ℕ} {key : ℕ × ℕ → ℕ} {start : (ℕ → ℕ) × (ℕ → ℕ)}

/-- What has to be known before the positions are placed. -/
structure Placeable (dir : ScrollDirection) (l : TableLayout) (key : ℕ × ℕ → ℕ)
    (start : (ℕ → ℕ) × (ℕ → ℕ)) (hashtable : Cells ℕ) : Prop where
  fits : l.Fits dir
  hashSize : hashtable.size = l.hashw * l.h
  hashes : ∀ p ∈ allPositions dir l, hashtable.cell (place l p) % dir.numTotals = key p
  key_lt : ∀ p, key p < dir.numTotals
  curs : ∀ b, bucketTotals key (allPositions dir l) b ≠ 0 →
    start.1 b = itemsBefore (bucketTotals key (allPositions dir l)) b

theorem length_allPositions : (allPositions dir l).length = l.h * dir.columns l.w :=
  length_visited.trans (Nat.add_zero _)

theorem Placeable.step (hp : Placeable dir l key start hashtable) {y column : ℕ} (hy : y < l.h)
    (hcolumn : column < dir.columns l.w) {t : Cells ℕ × Cells ℕ × ℕ}
    (h : Placed dir l key start (visited (dir.columns l.w) y column) t.1 t.2.1 ∧
      t.2.2 = place l (y, column)) :
    Returns (placeBlock dir hashtable (y * l.hashw) t (column * dir.spacing)) fun t =>
      Placed dir l key start (visited (dir.columns l.w) y (column + 1)) t.1 t.2.1 ∧
        t.2.2 = place l (y, column + 1) := by
  obtain ⟨⟨hcursSize, hidxSize, hplaced⟩, hnext⟩ := h
  have hcurs : t.1.cell = (placeItems key (place l) (visited (dir.columns l.w) y column) start).1 :=
    congrArg Prod.fst hplaced
  obtain ⟨after, hsplit⟩ := visited_split hy hcolumn
  have hspacing : column * dir.spacing / dir.spacing = column :=
    Nat.mul_div_cancel _ (by cases dir <;> decide)
  have hplace := hp.fits.index_lt hy hcolumn
  have hkey : hashtable.cell (y * l.hashw + column) % dir.numTotals = key (y, column) :=
    hp.hashes (y, column) (mem_visited.mpr (Or.inl ⟨hy, hcolumn⟩))
  have hlt := hp.key_lt (y, column)
  -- the cursor is inside the index table, and neither it nor the position wraps around
  have hpositions := hp.fits.positions_le
  have hcursor : t.1.cell (key (y, column)) < l.h * dir.columns l.w := by
    have hstart := hp.curs
    rw [← length_allPositions, hcurs]
    rw [allPositions, hsplit] at hstart ⊢
    exact placeItems_cursor_lt (place l) (fun p _ => hp.key_lt p) hstart
  have hfit : place l (y, column) < 2 ^ 32 := hplace.trans hp.fits.entries_lt
  unfold placeBlock
  rw [hspacing]
  refine Cells.returns_load (hp.hashSize ▸ hplace) ?_
  rw [hkey]
  refine Cells.returns_load (hcursSize ▸ hlt) (Cells.returns_store (hcursSize ▸ hlt)
    (Cells.returns_store (hidxSize ▸ hcursor.trans_le hpositions.1)
      (Returns.done ⟨⟨hcursSize, hidxSize, ?_⟩, congrArg (· + 1) hnext⟩)))
  dsimp only
  rw [visited_succ, placeItems_concat, ← hplaced, hnext, Nat.mod_eq_of_lt (by omega),
    Nat.mod_eq_of_lt hfit]

theorem Placeable.row (hp : Placeable dir l key start hashtable) {y : ℕ} (hy : y < l.h)
    {t : Cells ℕ × Cells ℕ × ℕ}
    (h : Placed dir l key start (visited (dir.columns l.w) y 0) t.1 t.2.1 ∧
      t.2.2 = y * l.hashw) :
    Returns (placeRow dir l hashtable t y) fun t =>
      Placed dir l key start (visited (dir.columns l.w) (y + 1) 0) t.1 t.2.1 ∧
        t.2.2 = (y + 1) * l.hashw := by
  unfold placeRow
  have hline : Returns ((dir.lineLoop l.w).foldlM (placeBlock dir hashtable t.2.2)
      (t.1, t.2.1, y <<< l.hashShift)) fun t =>
        Placed dir l key start (visited (dir.columns l.w) y (dir.columns l.w)) t.1 t.2.1 ∧
          t.2.2 = place l (y, dir.columns l.w) := by
    refine returns_line (fun column (t : Cells ℕ × Cells ℕ × ℕ) => Placed dir l key start
      (visited (dir.columns l.w) y column) t.1 t.2.1 ∧ t.2.2 = place l (y, column))
      ⟨h.1, hp.fits.shift y 0⟩ fun column hcolumn t ht => ?_
    rw [h.2]
    exact hp.step hy hcolumn ht
  refine hline.bind ?_
  rintro ⟨curs, idxtable, ybase⟩ ⟨hplaced, -⟩
  rw [visited_row] at hplaced
  refine Returns.done ⟨hplaced, ?_⟩
  rw [Nat.succ_mul]
  exact congrArg (· + l.hashw) h.2

theorem Placeable.all (hp : Placeable dir l key start hashtable) {curs idxtable : Cells ℕ}
    (hcurs : curs.size = dir.numTotals) (hidx : idxtable.size = dir.indexSize l)
    (hstart : start = (curs.cell, idxtable.cell)) :
    Returns ((List.range l.h).foldlM (placeRow dir l hashtable) (curs, idxtable, 0)) fun t =>
      Placed dir l key start (allPositions dir l) t.1 t.2.1 := by
  have hrows := Returns.foldlM_range (f := placeRow dir l hashtable) (n := l.h)
    (s := (curs, idxtable, 0))
    (fun y t => Placed dir l key start (visited (dir.columns l.w) y 0) t.1 t.2.1 ∧
      t.2.2 = y * l.hashw)
    ⟨⟨hcurs, hidx, hstart.symm⟩, (Nat.zero_mul _).symm⟩ fun y hy t ht => hp.row hy ht
  exact hrows.mono fun t ht => ht.1

end Place

/-! ## A call -/

/-- The sizes of the tables are those of the layout, which is that of a framebuffer if there has
been one. -/
structure Allocated (s : HashTables dir) : Prop where
  layout : s.layout.w ≠ 0 → s.layout = dir.layout s.layout.w s.layout.h s.layout.d
  hashtable : s.hashtable.size = s.layout.hashw * s.layout.h
  idxtable : s.idxtable.size = dir.indexSize s.layout
  totals : s.totals.size = dir.numTotals
  starts : s.starts.size = dir.numTotals
  curs : s.curs.size = dir.numTotals
  olddata : s.olddata.size = s.layout.w * s.layout.h * s.layout.d

theorem allocated_new (memory : ℕ → ℕ) (bytes : ℕ → Byte) : (new dir memory bytes).Allocated where
  layout h := absurd rfl h
  hashtable := rfl
  idxtable := by cases dir <;> rfl
  totals := rfl
  starts := rfl
  curs := rfl
  olddata := rfl

variable {s : HashTables dir}

/-- The first lines of `calcHashes` -/
theorem Allocated.ready (h : s.Allocated) (fb : OldFb) {s' : HashTables dir}
    (hs' : s' = if s.layout.w ≠ fb.w ∨ s.layout.h ≠ fb.h then s.reallocate fb else s) :
    s'.Allocated ∧ s'.layout.Fits dir ∧ s'.layout.w = fb.w ∧ s'.layout.h = fb.h := by
  have hpixels : fb.w * fb.h < 2 ^ 31 :=
    (Nat.le_mul_of_pos_right _ fb.depth).trans_lt fb.size
  split at hs'
  · rw [hs']
    refine ⟨⟨fun _ => rfl, rfl, rfl, h.totals, h.starts, h.curs, rfl⟩, ?_⟩
    exact ⟨⟨fb.wide, rfl, hpixels⟩, rfl, rfl⟩
  · next hsame =>
      obtain ⟨hw, hh⟩ := not_or.mp hsame
      have hw : s.layout.w = fb.w := not_not.mp hw
      have hh : s.layout.h = fb.h := not_not.mp hh
      have hwide : ScrollHasher.Wide s.layout.w := hw ▸ fb.wide
      rw [hs']
      refine ⟨h, ⟨hwide, h.layout ?_, by rw [hw, hh]; exact hpixels⟩, hw, hh⟩
      exact Nat.ne_of_gt (Nat.lt_of_lt_of_le (by decide) hwide.1)

/-- The number of positions in each bucket. -/
abbrev counts (dir : ScrollDirection) (xxh64 : List Byte → BitVec 64) (l : TableLayout)
    (olddata : Cells Byte) : ℕ → ℕ :=
  bucketTotals (bucketOf dir xxh64 l olddata) (allPositions dir l)

theorem itemsBefore_counts : itemsBefore (counts dir xxh64 l olddata) dir.numTotals =
    l.h * dir.columns l.w :=
  (itemsBefore_bucketTotals fun p _ => bucketOf_lt p).trans length_allPositions

/-- A bucket that is not empty is one of those there are. -/
theorem lt_of_counts {b : ℕ} (hb : counts dir xxh64 l olddata b ≠ 0) : b < dir.numTotals := by
  rw [counts, bucketTotals_eq] at hb
  obtain ⟨p, hp⟩ := List.exists_mem_of_length_pos (Nat.pos_of_ne_zero hb)
  exact of_decide_eq_true (List.mem_filter.mp hp).2 ▸ bucketOf_lt p

/-- What the tables hold after a call. -/
structure Sorted (s : HashTables dir) (xxh64 : List Byte → BitVec 64) : Prop where
  fits : s.layout.Fits dir
  counted : Counted dir xxh64 s.layout s.olddata (allPositions dir s.layout)
    (s.hashtable, s.totals)
  starts : ∀ b < dir.numTotals, s.totals.cell b ≠ 0 →
    s.starts.cell b = itemsBefore (counts dir xxh64 s.layout s.olddata) b
  placed : ∀ b < dir.numTotals, ∀ j (hj : j < (bucket (bucketOf dir xxh64 s.layout s.olddata)
      (allPositions dir s.layout) b).length),
    s.idxtable.cell (s.starts.cell b + j) = place s.layout
      (bucket (bucketOf dir xxh64 s.layout s.olddata) (allPositions dir s.layout) b)[j]

/-- The tables after a call, and the copy of the framebuffer. -/
structure Filled (s : HashTables dir) (xxh64 : List Byte → BitVec 64) (fb : OldFb) : Prop where
  w : s.layout.w = fb.w
  h : s.layout.h = fb.h
  copied : ∀ i < s.layout.w * s.layout.h * s.layout.d, s.olddata.cell i = fb.data i
  sorted : s.Sorted xxh64

theorem Allocated.calcHashes (h : s.Allocated) (fb : OldFb) :
    Returns (s.calcHashes xxh64 fb) fun s => s.Allocated ∧ s.Filled xxh64 fb := by
  unfold HashTables.calcHashes
  generalize hs' : (if s.layout.w ≠ fb.w ∨ s.layout.h ≠ fb.h then s.reallocate fb else s) = s'
  obtain ⟨h', hl, hw, hh⟩ := h.ready fb hs'.symm
  dsimp only
  refine Cells.returns_fill h'.olddata.ge (Cells.returns_fill h'.totals.ge ?_)
  generalize hdata : (⟨s'.olddata.size, _⟩ : Cells Byte) = olddata
  have hsize : olddata.size = s'.layout.w * s'.layout.h * s'.layout.d := by
    rw [← hdata]
    exact h'.olddata
  have hcopied : ∀ i < s'.layout.w * s'.layout.h * s'.layout.d,
      olddata.cell i = fb.data i := by
    intro i hi
    rw [← hdata]
    exact if_pos hi
  refine (counted_all hl hsize ⟨h'.hashtable, h'.totals, nofun, fun b hb => if_pos hb⟩).bind ?_
  rintro ⟨hashtable, totals⟩ hcounted
  -- the starts
  have hfit : itemsBefore (counts dir xxh64 s'.layout olddata) dir.numTotals < 2 ^ 32 := by
    rw [itemsBefore_counts]
    exact hl.positions_le.2
  refine (started_all hcounted.totalsSize hcounted.totals hfit
    ⟨h'.starts, h'.curs, nofun, nofun, rfl⟩).bind ?_
  rintro ⟨starts, curs, sum⟩ hstarted
  have hstart : ∀ b < dir.numTotals, totals.cell b ≠ 0 →
      starts.cell b = itemsBefore (counts dir xxh64 s'.layout olddata) b :=
    fun b hb hne => hstarted.starts b hb (hcounted.totals b hb ▸ hne)
  -- the index table
  have hcurs : ∀ b, counts dir xxh64 s'.layout olddata b ≠ 0 →
      curs.cell b = itemsBefore (counts dir xxh64 s'.layout olddata) b :=
    fun b hb => hstarted.curs b (lt_of_counts hb) hb
  have hplaceable : Placeable dir s'.layout (bucketOf dir xxh64 s'.layout olddata)
      (curs.cell, s'.idxtable.cell) hashtable :=
    ⟨hl, hcounted.hashSize, fun p hp => congrArg (· % dir.numTotals) (hcounted.hashes p hp),
      bucketOf_lt, hcurs⟩
  refine (hplaceable.all hstarted.cursSize h'.idxtable rfl).bind ?_
  rintro ⟨curs', idxtable, src⟩ ⟨hcursSize, hidxSize, hplaced⟩
  have hidx : idxtable.cell = _ := congrArg Prod.snd hplaced
  refine Returns.done ⟨⟨h'.layout, hcounted.hashSize, hidxSize, hcounted.totalsSize,
    hstarted.startsSize, hcursSize, hsize⟩, hw, hh, hcopied, hl, hcounted, hstart,
    fun b hb j hj => ?_⟩
  have hne : counts dir xxh64 s'.layout olddata b ≠ 0 := by
    rw [counts, bucketTotals_eq]
    exact Nat.ne_zero_of_lt hj
  have hinit := placeItems_init (place s'.layout) (s := (curs.cell, s'.idxtable.cell)) hcurs
    (allPositions dir s'.layout) fun c => (bucketTotals_eq _ _ c).ge
  dsimp only
  rw [hstarted.starts b hb hne, hidx]
  exact (hinit b hne).2 j hj

/-! ## The table is an index -/

theorem slice_eq (h : s.Sorted xxh64) {b : ℕ} (hb : b < dir.numTotals) :
    s.slice b = (bucket (bucketOf dir xxh64 s.layout s.olddata) (allPositions dir s.layout) b).map
      (place s.layout) := by
  have htotals : s.totals.cell b = (bucket (bucketOf dir xxh64 s.layout s.olddata)
      (allPositions dir s.layout) b).length :=
    (h.counted.totals b hb).trans (bucketTotals_eq _ _ b)
  refine List.ext_getElem ?_ fun j hj hj' => ?_
  · rw [slice, List.length_map, List.length_map, List.length_range, htotals]
  · rw [List.length_map] at hj'
    simp only [slice, List.getElem_map, List.getElem_range]
    exact h.placed b hb j hj'

theorem Sorted.indexed (h : s.Sorted xxh64) (hs : s.Allocated) {b : ℕ} (hb : b < dir.numTotals) :
    s.Indexed xxh64 b := by
  refine ⟨fun hne => ?_, ?_, fun idx => ?_⟩
  · have hend := itemsBefore_mono (bucketTotals (bucketOf dir xxh64 s.layout s.olddata)
      (allPositions dir s.layout)) hb
    rw [Nat.succ_eq_add_one, itemsBefore_succ, itemsBefore_bucketTotals fun p _ => bucketOf_lt p,
      length_allPositions, ← h.counted.totals b hb, ← h.starts b hb hne] at hend
    rw [hs.idxtable]
    exact hend.trans h.fits.positions_le.1
  · rw [slice_eq h hb]
    exact List.pairwise_map.mpr ((visited_increasing h.fits.padded.2 s.layout.h).filter _)
  · rw [slice_eq h hb, List.mem_map]
    constructor
    · rintro ⟨⟨y, column⟩, hmem, rfl⟩
      obtain ⟨hall, hbucket⟩ := List.mem_filter.mp hmem
      have hhash := h.counted.hashes _ hall
      obtain ⟨hy, hcolumn⟩ := (mem_visited.mp hall).resolve_right fun h => Nat.not_lt_zero _ h.2
      refine ⟨y, hy, column, hcolumn, rfl, hhash, ?_⟩
      exact (congrArg (· % dir.numTotals) hhash).trans (of_decide_eq_true hbucket)
    · rintro ⟨y, hy, column, hcolumn, rfl, hhash, hbucket⟩
      refine ⟨(y, column), List.mem_filter.mpr ⟨?_, decide_eq_true ?_⟩, rfl⟩
      · exact mem_visited.mpr (Or.inl ⟨hy, hcolumn⟩)
      · exact (congrArg (· % dir.numTotals) hhash).symm.trans hbucket

/-- Searching and invalidating leave the tables allocated as they are. -/
theorem Allocated.step (h : s.Allocated) (call : Call) :
    Returns (s.step xxh64 call) Allocated := by
  cases call with
  | calcHashes fb => exact (h.calcHashes fb).mono fun s hs => hs.1
  | search entries lastOffX lastOffY =>
    exact Returns.done ⟨h.layout, h.hashtable, h.idxtable, h.totals, h.starts, h.curs, h.olddata⟩

/-- **Scroll index table.** Whatever a hasher has been used for before, `calcHashes` stays inside
the tables, and afterwards the slice of every bucket holds the positions that fall into it. -/
theorem index_table (dir : ScrollDirection) (xxh64 : List Byte → BitVec 64) (memory : ℕ → ℕ)
    (bytes : ℕ → Byte) (calls : List Call) (fb : OldFb) :
    Returns ((calls ++ [Call.calcHashes fb]).foldlM (step xxh64) (new dir memory bytes)) fun s =>
      s.layout.w = fb.w ∧ s.layout.h = fb.h ∧
        (∀ i < s.layout.w * s.layout.h * s.layout.d, s.olddata.cell i = fb.data i) ∧
        ∀ b < dir.numTotals, s.Indexed xxh64 b := by
  have hcalls : ∀ (calls : List Call) (s : HashTables dir), s.Allocated →
      Returns (calls.foldlM (step xxh64) s) Allocated := by
    intro calls
    induction calls with
    | nil => exact fun s hs => Returns.done hs
    | cons call calls ih =>
      intro s hs
      rw [List.foldlM_cons]
      exact (hs.step call).bind ih
  rw [List.foldlM_append]
  refine (hcalls calls _ (allocated_new memory bytes)).bind fun s hs => ?_
  rw [List.foldlM_cons]
  refine (hs.calcHashes fb).bind fun t ht => Returns.done ?_
  obtain ⟨halloc, hfilled⟩ := ht
  exact ⟨hfilled.w, hfilled.h, hfilled.copied, fun b hb => hfilled.sorted.indexed halloc hb⟩

end HashTables

end KasmVNC.Rfb
