import KasmVNC.Lib.Run
import KasmVNC.Rfb.ScrollHasher

/-!
# Scrolled content in a framebuffer with padded lines

The hashers step through a new block by the width of the old framebuffer. Where the lines of
the new framebuffer are farther apart, they look at other pixels than those of the block.
-/

namespace KasmVNC.Rfb

open KasmVNC.Lib

/-- The calls between two `calcHashes`. -/
inductive ScrollOp (C : Type*)
  | findBestMatch (newdata : ℕ → C) (ptr maxLines inx iny : ℕ)
  | findBlock (newdata : ℕ → C) (ptr inx iny : ℕ)
  | invalidate (x y lines : ℕ)

/-- A block `compareRect` looks for: its first line, how many lines it has, and a column the
hasher knows. -/
structure BlockPos (dir : ScrollDirection) (w h : ℕ) where
  inx : ℕ
  iny : ℕ
  maxLines : ℕ
  aligned : dir.spacing ∣ inx
  right : inx + ScrollBlockSize ≤ w
  lines_pos : 0 < maxLines
  lines_le : maxLines ≤ ScrollBlockSize
  bottom : iny + maxLines ≤ h

namespace ScrollHasher

variable {C : Type*} [DecidableEq C] {dir : ScrollDirection} {s : ScrollHasher C dir}
  {hash : List C → ℕ} {newdata : ℕ → C} {stride ptr : ℕ}

def apply (hash : List C → ℕ) (s : ScrollHasher C dir) : ScrollOp C → ScrollHasher C dir
  | .findBestMatch newdata ptr maxLines inx iny =>
    (s.findBestMatch newdata hash ptr maxLines inx iny).1
  | .findBlock newdata ptr inx iny => (s.findBlock newdata hash ptr inx iny).1
  | .invalidate x y lines => s.invalidate x y lines

/-- The source lies in the old framebuffer, and its lines are those of the block, which are
`stride` pixels apart. -/
structure Faithful (s : ScrollHasher C dir) (newdata : ℕ → C) (stride ptr : ℕ) (m : Match) :
    Prop where
  right : m.x + ScrollBlockSize ≤ s.w
  bottom : m.y + m.lines ≤ s.h
  same : ∀ k < m.lines, ∀ j < ScrollBlockSize,
    newdata (ptr + stride * k + j) = s.olddata ((m.y + k) * s.w + m.x + j)

/-- Whatever a search for the block reports is faithful. -/
def ReportsFaithful (s : ScrollHasher C dir) (hash : List C → ℕ) (newdata : ℕ → C) (stride : ℕ)
    {w h : ℕ} (b : BlockPos dir w h) : Prop :=
  let ptr := b.iny * stride + b.inx
  (∀ m, (s.findBestMatch newdata hash ptr b.maxLines b.inx b.iny).2 = some m →
      s.Faithful newdata stride ptr m) ∧
    (b.maxLines = ScrollBlockSize → ∀ m,
      (s.findBlock newdata hash ptr b.inx b.iny).2 = some m → s.Faithful newdata stride ptr m)

/-! ## What the calls leave -/

omit [DecidableEq C] in
theorem WellFormed.invalidate (hs : s.WellFormed) (x y lines : ℕ) :
    (s.invalidate x y lines).WellFormed := by
  cases dir with
  | vert => exact ⟨hs.wide, hs.indexed, hs.offset⟩
  | bothDir => exact ⟨hs.wide, hs.indexed, hs.offset⟩

/-- The hasher still knows the same framebuffer. -/
structure Holds (s : ScrollHasher C dir) (w h : ℕ) (old : ℕ → C) : Prop where
  wellFormed : s.WellFormed
  width : s.w = w
  height : s.h = h
  olddata : s.olddata = old

variable {w h : ℕ} {old : ℕ → C}

omit [DecidableEq C] in
theorem Holds.offsetOnly {s' : ScrollHasher C dir} (hs : s.Holds w h old)
    (hs' : s.OffsetOnly s') : s'.Holds w h old := by
  have hwellFormed := hs'.wellFormed hs.wellFormed
  obtain ⟨x, y, rfl, -⟩ := hs'
  exact ⟨hwellFormed, hs.width, hs.height, hs.olddata⟩

theorem Holds.apply (hs : s.Holds w h old) (op : ScrollOp C) :
    (s.apply hash op).Holds w h old := by
  cases op with
  | findBestMatch newdata ptr maxLines inx iny => exact hs.offsetOnly offsetOnly_findBestMatch
  | findBlock newdata ptr inx iny => exact hs.offsetOnly offsetOnly_findBlock
  | invalidate x y lines =>
    have hwellFormed := hs.wellFormed.invalidate x y lines
    cases dir with
    | vert => exact ⟨hwellFormed, hs.width, hs.height, hs.olddata⟩
    | bothDir => exact ⟨hwellFormed, hs.width, hs.height, hs.olddata⟩

omit [DecidableEq C] in
theorem holds_calcHashes (s : ScrollHasher C dir) (hash : List C → ℕ) (old : ℕ → C) (h : ℕ)
    (hw : Wide w) : (s.calcHashes hash old w h).Holds w h old :=
  ⟨wellFormed_calcHashes s hash old w h hw, rfl, rfl, rfl⟩

/-! ## Lines where the hasher expects them -/

/-- A report about lines that are a width apart, in terms of the block's own lines. -/
theorem faithful_findBestMatch (hs : s.WellFormed) {maxLines inx iny : ℕ}
    (hinx : dir.spacing ∣ inx) (hlines : 0 < maxLines)
    (hstep : ∀ k < maxLines, s.w * k = stride * k) {m : Match}
    (hm : (s.findBestMatch newdata hash ptr maxLines inx iny).2 = some m) :
    s.Faithful newdata stride ptr m := by
  obtain ⟨idx, p, hpos, hp, rfl⟩ := findBestMatch_some hs hinx hm
  have hline : ∀ k < s.matchingLines newdata ptr maxLines idx, _ :=
    fun k hk => matchingLines_line hs hlines hp hk
  have hlast := (hline (s.matchingLines newdata ptr maxLines idx - 1) (by omega)).1
  refine ⟨position_lt hs.wide (mem_positions.mp hp.mem).2, ?_, fun k hk j hj => ?_⟩
  · show p.1 + s.matchingLines newdata ptr maxLines idx ≤ s.h
    omega
  · obtain ⟨hk', -, hsame⟩ := hline k hk
    rw [← hstep k (lt_of_lt_of_le hk' (Nat.min_le_left _ _))]
    exact segment_apply (of_decide_eq_true hsame) hj

/-- The lines before the least frequent one, put before those of its report. -/
theorem faithful_findBlock {s : ScrollHasher C .vert} (hs : s.WellFormed) {inx iny : ℕ}
    (hinx : ScrollBlockSize ∣ inx) (hstep : ∀ k < ScrollBlockSize, s.w * k = stride * k)
    {m : Match} (hm : (s.findBlock newdata hash ptr inx iny).2 = some m) :
    s.Faithful newdata stride ptr m := by
  obtain ⟨lowest, hlowest, m', hfound, ⟨hlines, -, hy⟩, hbegin, rfl⟩ := findBlock_some hm
  have hlowest : lowest < 64 := hlowest
  have hlines : m'.lines = 64 - lowest := hlines
  have hend : s.Faithful newdata s.w (ptr + s.w * lowest) m' :=
    faithful_findBestMatch hs hinx (by omega) (fun _ _ => rfl) hfound
  have hbottom := hend.bottom
  refine ⟨hend.right, ?_, fun k hk j hj => ?_⟩
  · show m'.y - lowest + 64 ≤ s.h
    omega
  · have hk : k < 64 := hk
    show newdata (ptr + stride * k + j) = s.olddata ((m'.y - lowest + k) * s.w + m'.x + j)
    rw [← hstep k hk]
    by_cases hfirst : k < lowest
    · exact segment_apply (of_decide_eq_true (hbegin k hfirst).2) hj
    · have hrow : m'.y - lowest + k = m'.y + (k - lowest) := by omega
      have hptr : ptr + s.w * k = ptr + s.w * lowest + s.w * (k - lowest) := by
        rw [Nat.add_assoc, ← Nat.mul_add, Nat.add_sub_cancel' (not_lt.mp hfirst)]
      rw [hrow, hptr]
      exact hend.same (k - lowest) (by omega) j hj

theorem reportsFaithful (hs : s.Holds w h old) (hstep : stride = w ∨ h ≤ 1)
    (b : BlockPos dir w h) : s.ReportsFaithful hash newdata stride b := by
  have hlines := b.lines_pos
  have hbottom := b.bottom
  have hrows : ∀ k < b.maxLines, s.w * k = stride * k := by
    intro k hk
    rw [hs.width]
    rcases hstep with rfl | hh
    · rfl
    · obtain rfl : k = 0 := by omega
      rw [Nat.mul_zero, Nat.mul_zero]
  refine ⟨fun m => faithful_findBestMatch hs.wellFormed b.aligned hlines hrows, fun hfull m => ?_⟩
  cases dir with
  | bothDir => exact (nomatch ·)
  | vert => exact faithful_findBlock hs.wellFormed b.aligned (hfull ▸ hrows)

/-! ## Lines farther apart -/

omit [DecidableEq C] in
theorem segment_eq_replicate {a : C} {o : ℕ} (h : ∀ j < ScrollBlockSize, newdata (o + j) = a) :
    segment newdata o = List.replicate ScrollBlockSize a := by
  rw [segment, List.eq_replicate_iff]
  refine ⟨by rw [List.length_map, List.length_range], fun c hc => ?_⟩
  obtain ⟨j, hj, rfl⟩ := List.mem_map.mp hc
  exact h j (List.mem_range.mp hj)

omit [DecidableEq C] in
theorem positions_head (hw : Wide s.w) (hh : 0 < s.h) : s.positions[0]? = some (0, 0) := by
  have hcolumns := (@columns_pos dir _ hw).1
  obtain ⟨h', hh'⟩ := Nat.exists_eq_succ_of_ne_zero hh.ne'
  obtain ⟨c', hc'⟩ := Nat.exists_eq_succ_of_ne_zero hcolumns.ne'
  rw [positions, hh', hc', List.range_succ_eq_map, List.range_succ_eq_map]
  rfl

omit [DecidableEq C] in
/-- The scan of a bucket begins with its first entry. -/
theorem scanned_head {b : ℕ} (hb : s.totals b ≠ 0) :
    ∃ rest, s.scanned b = s.idxtable (s.starts b) :: rest := by
  unfold scanned
  dsimp only
  generalize hinc : (if s.totals b / 32 = 0 then 1 else s.totals b / 32) = inc
  have hpos : 0 < inc := by
    rw [← hinc]
    split <;> omega
  have hn : 0 < (s.totals b + inc - 1) / inc := Nat.div_pos (by omega) hpos
  obtain ⟨n, hn⟩ := Nat.exists_eq_succ_of_ne_zero hn.ne'
  rw [hn, List.range'_succ]
  exact ⟨_, rfl⟩

/-- An old framebuffer of one colour, and a new one that has this colour on the first line,
and on what the hasher takes for the second one. -/
def plain (a : C) : ℕ → C := fun _ => a

def padded (w : ℕ) (a b : C) : ℕ → C := fun o => if o < w + ScrollBlockSize then a else b

section Misreport

variable {a b : C} (s₀ : ScrollHasher C dir)

omit [DecidableEq C] in
theorem hashOf_plain (hold : s.olddata = plain a) (p : ℕ × ℕ) :
    s.hashOf hash p = hash (List.replicate ScrollBlockSize a) := by
  rw [hashOf, hold]
  exact congrArg hash (segment_eq_replicate fun _ _ => rfl)

omit [DecidableEq C] in
/-- All positions are in one bucket, so the first one is found first. -/
theorem scanned_plain (hw : Wide w) (hh : 0 < h) :
    (s₀.calcHashes hash (plain a) w h).totals
        (hash (List.replicate ScrollBlockSize a) % dir.numTotals) ≠ 0 ∧
      ∃ rest, (s₀.calcHashes hash (plain a) w h).scanned
          (hash (List.replicate ScrollBlockSize a) % dir.numTotals) =
        (s₀.calcHashes hash (plain a) w h).tableIndex 0 0 :: rest := by
  generalize hbucket : hash (List.replicate ScrollBlockSize a) % dir.numTotals = n
  have hkey : ∀ p, s₀.positionKey hash (plain a) w h p = n := by
    intro p
    rw [positionKey, hashOf_plain rfl, hbucket]
  have hall : bucket (s₀.positionKey hash (plain a) w h)
      (s₀.calcHashes hash (plain a) w h).positions n =
        (s₀.calcHashes hash (plain a) w h).positions :=
    List.filter_eq_self.mpr fun p _ => decide_eq_true (hkey p)
  have hhead := positions_head (s := s₀.calcHashes hash (plain a) w h) hw hh
  have htotal : (s₀.calcHashes hash (plain a) w h).totals n =
      (s₀.calcHashes hash (plain a) w h).positions.length := by
    rw [← hall]
    exact bucketTotals_eq _ _ n
  have hlength := (List.getElem?_eq_some_iff.mp hhead).1
  obtain ⟨p, hp, hvalue⟩ := idxtable_calcHashes s₀ hash (plain a) w h hw (htotal ▸ hlength)
  rw [hall, hhead] at hp
  obtain rfl := Option.some.inj hp
  have hne : (s₀.calcHashes hash (plain a) w h).totals n ≠ 0 := htotal.trans_ne hlength.ne'
  obtain ⟨rest, hrest⟩ := scanned_head hne
  exact ⟨hne, rest, hrest.trans (congrArg (· :: rest) hvalue)⟩

/-- Lines of the only colour of the old framebuffer are found at its first position. -/
theorem findBestMatch_plain {n : ℕ} (hhash : hash (List.replicate ScrollBlockSize a) ≠ 0)
    (hw : Wide w) (hn : 0 < n) (hnh : n ≤ h)
    (hlines : ∀ k < n, segment newdata (ptr + w * k) = List.replicate ScrollBlockSize a)
    (inx iny : ℕ) :
    ((s₀.calcHashes hash (plain a) w h).findBestMatch newdata hash ptr n inx iny).2 =
      some ⟨0, 0, n, hn⟩ := by
  have hentry : ∀ y < h, (s₀.calcHashes hash (plain a) w h).hashtable
      ((s₀.calcHashes hash (plain a) w h).tableIndex y 0) =
        hash (List.replicate ScrollBlockSize a) := by
    intro y hy
    have hp : (y, 0) ∈ (s₀.calcHashes hash (plain a) w h).positions :=
      mem_positions.mpr ⟨hy, (@columns_pos dir _ hw).1⟩
    exact (hashtable_calcHashes s₀ hash (plain a) w h hw hp).trans (hashOf_plain rfl _)
  obtain ⟨htotals, rest, hscanned⟩ := @scanned_plain _ _ hash _ _ a s₀ hw (by omega : 0 < h)
  have hoffset : (s₀.calcHashes hash (plain a) w h).lastOffX = 0 ∧
      (s₀.calcHashes hash (plain a) w h).lastOffY = 0 := ⟨rfl, rfl⟩
  have hheld := holds_calcHashes s₀ hash (plain a) h hw
  generalize s₀.calcHashes hash (plain a) w h = s at *
  obtain ⟨hwell, hwidth, hheight, hold⟩ := hheld
  have hcolumn := (@columns_pos dir _ hwell.wide).1
  have hy : s.oldy (s.tableIndex 0 0) = 0 := oldy_tableIndex hwell.wide hcolumn
  have hx : s.oldx (s.tableIndex 0 0) = 0 :=
    (oldx_tableIndex hwell.wide hcolumn).trans (Nat.zero_mul _)
  have hsame : ∀ k < n, ∀ o, s.sameLine newdata (ptr + w * k) o = true := by
    intro k hk o
    refine decide_eq_true ((hlines k hk).trans (segment_eq_replicate fun _ _ => ?_).symm)
    rw [hold]
    rfl
  have hfirst : segment newdata ptr = List.replicate ScrollBlockSize a := hlines 0 hn
  have hmatches : ∃ rest', s.firstLineMatches newdata ptr
      (hash (List.replicate ScrollBlockSize a)) n inx iny = s.tableIndex 0 0 :: rest' := by
    have hnone : s.goodOffset newdata ptr (hash (List.replicate ScrollBlockSize a)) n inx iny =
        [] := if_neg fun hcond => hcond.1.elim (· hoffset.1) (· hoffset.2)
    rw [firstLineMatches, hnone, hscanned, List.nil_append, List.filter_cons_of_pos]
    · exact ⟨_, List.take_succ_cons⟩
    · exact Bool.and_eq_true_iff.mpr ⟨decide_eq_true (hentry 0 (by omega)), hsame 0 hn _⟩
  have hfound : s.matchingLines newdata ptr n (s.tableIndex 0 0) = n := by
    have hmin : min n (s.h - s.oldy (s.tableIndex 0 0)) = n := by
      rw [hy, hheight]
      exact Nat.min_eq_left hnh
    unfold matchingLines
    dsimp only
    rw [hmin, List.takeWhile_eq_self_iff.mpr, List.length_range']
    · omega
    · intro k hk
      have hkn : k < n := by
        have := List.mem_range'_1.mp hk
        omega
      rw [tableIndex_add, Nat.zero_add, hentry k (by omega), hwidth, hsame k hkn, Bool.and_true]
      exact decide_eq_true hhash
  obtain ⟨rest', hmatches⟩ := hmatches
  have hbest : pickBest n (s.matchingLines newdata ptr n) (s.tableIndex 0 0 :: rest')
      (s.tableIndex 0 0, 0) = (s.tableIndex 0 0, n) := by
    unfold pickBest
    dsimp only
    rw [hfound, if_pos hn, if_pos rfl]
  unfold findBestMatch
  dsimp only
  rw [hfirst, if_neg htotals, hmatches]
  dsimp only
  rw [dif_pos (by rw [hbest]; exact hn)]
  simp only [hbest, hx, hy]

/-- Two lines, as far apart as the hasher takes them to be, are reported. -/
theorem findBestMatch_padded (hhash : hash (List.replicate ScrollBlockSize a) ≠ 0) (hw : Wide w)
    (hh : 2 ≤ h) :
    ((s₀.calcHashes hash (plain a) w h).findBestMatch (padded w a b) hash 0 2 0 0).2 =
      some ⟨0, 0, 2, by decide⟩ := by
  refine findBestMatch_plain s₀ hhash hw Nat.two_pos hh (fun k hk => ?_) 0 0
  refine segment_eq_replicate fun j hj => if_pos ?_
  have hle : w * k ≤ w * 1 := Nat.mul_le_mul_left w (Nat.lt_succ_iff.mp hk)
  omega

/-- The second line that is reported is not that of the block. -/
theorem padded_misreported (hab : a ≠ b) (hhash : hash (List.replicate ScrollBlockSize a) ≠ 0)
    (hw : Wide w) (hh : 2 ≤ h) (hstride : w < stride) :
    ¬ (s₀.calcHashes hash (plain a) w h).ReportsFaithful hash (padded w a b) stride
      (⟨0, 0, 2, dvd_zero _, by simpa using hw.1, by decide, by decide, by simpa using hh⟩ :
        BlockPos dir w h) := by
  rintro ⟨hreport, -⟩
  have hfound := findBestMatch_padded (b := b) s₀ hhash hw hh
  have hsame := (hreport ⟨0, 0, 2, by decide⟩ (by simpa using hfound)).same 1 (by decide) 63
    (by decide)
  have hnew : padded w a b (0 * stride + 0 + stride * 1 + 63) = b := if_neg (by
    show ¬ 0 * stride + 0 + stride * 1 + 63 < w + 64
    omega)
  exact hab (hsame.symm.trans hnew)

end Misreport

/-- **Reports are faithful**, for all framebuffers with this distance between lines, exactly if
it is the width or there is only one line. -/
theorem reports_faithful_iff {a b : C} (hab : a ≠ b)
    (hhash : hash (List.replicate ScrollBlockSize a) ≠ 0) (hw : Wide w) (hstride : w ≤ stride)
    (s₀ : ScrollHasher C dir) :
    (∀ (old newdata : ℕ → C) (ops : List (ScrollOp C)) (block : BlockPos dir w h),
        (run (ScrollHasher.apply hash) (s₀.calcHashes hash old w h) ops).ReportsFaithful hash
          newdata stride block) ↔
      stride = w ∨ h ≤ 1 := by
  constructor
  · intro hall
    by_contra hnot
    obtain ⟨hne, hh⟩ := not_or.mp hnot
    exact padded_misreported (b := b) s₀ hab hhash hw (by omega)
      (lt_of_le_of_ne hstride (Ne.symm hne)) (hall (plain a) (padded w a b) [] _)
  · intro hstep old newdata ops block
    have hheld : (run (ScrollHasher.apply hash) (s₀.calcHashes hash old w h) ops).Holds w h old :=
      run_invariant_all (I := fun s : ScrollHasher C dir => s.Holds w h old)
        (fun _ op hs => hs.apply op) ops (holds_calcHashes s₀ hash old h hw)
    exact reportsFaithful hheld hstep block

/-- Before the first `calcHashes`. -/
def blank (dir : ScrollDirection) : ScrollHasher ℕ dir :=
  ⟨0, 0, fun _ => 0, fun _ => 0, fun _ => 0, fun _ => 0, 0, 0, fun _ => 0⟩

theorem wide_64 : Wide 64 := by
  unfold Wide
  decide

/-- Lines of 64 pixels, 65 pixels apart. -/
theorem reports_faithful_iff_65 :
    (∀ (old newdata : ℕ → ℕ) (ops : List (ScrollOp ℕ)) (block : BlockPos .bothDir 64 2),
        (run (ScrollHasher.apply fun _ => 1)
          ((blank .bothDir).calcHashes (fun _ => 1) old 64 2) ops).ReportsFaithful (fun _ => 1)
            newdata 65 block) ↔
      65 = 64 ∨ 2 ≤ 1 :=
  reports_faithful_iff (a := 0) (b := 1) (by decide) (by decide) wide_64 (by decide)
    (blank .bothDir)

/-- A block of two lines, each of 64 pixels and one more. -/
theorem padded_lines_misreported :
    ¬ ∀ (old newdata : ℕ → ℕ) (block : BlockPos .vert 64 2),
      ((blank .vert).calcHashes (fun _ => 1) old 64 2).ReportsFaithful (fun _ => 1)
        newdata 65 block := by
  intro hall
  exact padded_misreported (a := 0) (b := 1) (blank .vert) (by decide) (by decide) wide_64
    (by decide) (by decide : 64 < 65) (hall _ _ _)

end ScrollHasher

end KasmVNC.Rfb
