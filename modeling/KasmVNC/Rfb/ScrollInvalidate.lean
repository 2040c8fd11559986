import KasmVNC.Rfb.ScrollHasher

/-!
# Invalidation in the hasher for both directions

Its table has a slot for each column where a segment begins, and rows are padded to a power of
two. The span that an invalidation zeroes in a row is cut at the framebuffer's width, which may
be more than the slots of the row.
-/

namespace KasmVNC.Rfb

open KasmVNC.Lib

namespace ScrollHasher

variable {C : Type*} {s : ScrollHasher C .bothDir} {x y lines : ℕ}

/-- Only slots of the block's rows, all of them in the table, are changed; and those whose
segment overlaps the block are emptied. -/
structure InvalidatesRows (s : ScrollHasher C .bothDir) (x y lines : ℕ) : Prop where
  rows : ∀ i, (s.invalidate x y lines).hashtable i ≠ s.hashtable i →
    y * s.hashw ≤ i ∧ i < (y + lines) * s.hashw
  table : ∀ i, (s.invalidate x y lines).hashtable i ≠ s.hashtable i → i < s.hashw * s.h
  emptied : ∀ row c, (y ≤ row ∧ row < y + lines) → c < ScrollDirection.bothDir.columns s.w →
    (c < x + ScrollBlockSize ∧ x < c + ScrollBlockSize) →
      (s.invalidate x y lines).hashtable (s.tableIndex row c) = 0

/-- The column behind the zeroed span. -/
def spanEnd (w x : ℕ) : ℕ := min (x + 127) w

/-! ## The span of a row -/

theorem foldl_clearSpan_of_not_mem {first : ℕ → ℕ} {n i : ℕ} : ∀ {rows : List ℕ} {table : ℕ → ℕ},
    (∀ y ∈ rows, ¬ (first y ≤ i ∧ i < first y + n)) →
      rows.foldl (fun table y => clearSpan table (first y) n) table i = table i
  | [], _, _ => rfl
  | y :: rows, table, h => by
    obtain ⟨hy, hrows⟩ := List.forall_mem_cons.mp h
    exact (foldl_clearSpan_of_not_mem hrows).trans (if_neg hy)

theorem tableIndex_eq (hw : Wide s.w) (row c : ℕ) :
    s.tableIndex row c = row * s.hashw + c := by
  rw [tableIndex, Nat.shiftLeft_eq, (hashw_spec hw).1]

/-- The members of the span of a row, as `invalidate` computes it. -/
theorem mem_span_iff (hw : Wide s.w) (hx : x + ScrollBlockSize ≤ s.w) (row i : ℕ) :
    let left := if x > ScrollBlockSize - 1 then ScrollBlockSize - 1 else x
    let right := if x + ScrollBlockSize + (ScrollBlockSize - 1) < s.w then ScrollBlockSize - 1
      else s.w - x - ScrollBlockSize
    s.tableIndex row x - left ≤ i ∧
        i < s.tableIndex row x - left + (ScrollBlockSize + left + right) ↔
      row * s.hashw + (x - 63) ≤ i ∧ i < row * s.hashw + spanEnd s.w x := by
  intro left right
  have hx : x + 64 ≤ s.w := hx
  have hleft : left = if x > 63 then 63 else x := rfl
  have hright : right = if x + 64 + 63 < s.w then 63 else s.w - x - 64 := rfl
  rw [tableIndex_eq hw, spanEnd]
  show _ ≤ i ∧ i < _ + (64 + left + right) ↔ _
  split at hleft
  · split at hright
    · omega
    · omega
  · split at hright
    · omega
    · omega

/-- What is zeroed, row by row. -/
theorem invalidate_eq_zero (hw : Wide s.w) (hx : x + ScrollBlockSize ≤ s.w) {i row : ℕ}
    (hrow : y ≤ row ∧ row < y + lines)
    (hi : row * s.hashw + (x - 63) ≤ i ∧ i < row * s.hashw + spanEnd s.w x) :
    (s.invalidate x y lines).hashtable i = 0 := by
  by_contra hne
  exact (foldl_clearSpan hne).2 row (List.mem_range'_1.mpr hrow) ((mem_span_iff hw hx row i).mpr hi)

theorem invalidate_eq (hw : Wide s.w) (hx : x + ScrollBlockSize ≤ s.w) {i : ℕ}
    (h : ∀ row, (y ≤ row ∧ row < y + lines) →
      ¬ (row * s.hashw + (x - 63) ≤ i ∧ i < row * s.hashw + spanEnd s.w x)) :
    (s.invalidate x y lines).hashtable i = s.hashtable i :=
  foldl_clearSpan_of_not_mem fun row hrow hspan =>
    h row (List.mem_range'_1.mp hrow) ((mem_span_iff hw hx row i).mp hspan)

/-- The slot behind the block's last row is zeroed if the span is longer than a row. -/
theorem invalidate_next_row (hw : Wide s.w) (hx : x + ScrollBlockSize ≤ s.w) (hlines : lines ≠ 0)
    (hlong : s.hashw < spanEnd s.w x) :
    (s.invalidate x y lines).hashtable ((y + lines) * s.hashw) = 0 := by
  have hcolumns : s.w - 63 ≤ s.hashw := by
    obtain ⟨hpow, hle⟩ := hashw_spec hw
    rwa [← hpow, columns_bothDir hw] at hle
  have hlast : (y + lines) * s.hashw = (y + lines - 1) * s.hashw + s.hashw := by
    obtain ⟨n, hn⟩ := Nat.exists_eq_succ_of_ne_zero (by omega : y + lines ≠ 0)
    rw [hn, Nat.succ_mul]
    rfl
  have hx' : x + 64 ≤ s.w := hx
  have hrow : y ≤ y + lines - 1 ∧ y + lines - 1 < y + lines := by omega
  refine invalidate_eq_zero hw hx hrow ?_
  rw [hlast]
  omega

/-- Within the block's rows, if no span is longer than a row. -/
theorem invalidatesRows (hw : Wide s.w) (hx : x + ScrollBlockSize ≤ s.w) (hy : y + lines ≤ s.h)
    (hspan : lines = 0 ∨ spanEnd s.w x ≤ s.hashw) : s.InvalidatesRows x y lines := by
  have hrows : ∀ i, (s.invalidate x y lines).hashtable i ≠ s.hashtable i →
      y * s.hashw ≤ i ∧ i < (y + lines) * s.hashw := by
    intro i hchanged
    by_contra hout
    refine hchanged (invalidate_eq hw hx fun row hrow hi => hout ?_)
    have hend : spanEnd s.w x ≤ s.hashw := hspan.resolve_left (by omega)
    constructor
    · calc y * s.hashw ≤ row * s.hashw := Nat.mul_le_mul_right _ hrow.1
        _ ≤ row * s.hashw + (x - 63) := Nat.le_add_right _ _
        _ ≤ i := hi.1
    · calc i < row * s.hashw + spanEnd s.w x := hi.2
        _ ≤ row * s.hashw + s.hashw := Nat.add_le_add_left hend _
        _ = (row + 1) * s.hashw := (Nat.succ_mul row _).symm
        _ ≤ (y + lines) * s.hashw := Nat.mul_le_mul_right _ hrow.2
  refine ⟨hrows, fun i hchanged => ?_, fun row c hrow hc hover => ?_⟩
  · calc i < (y + lines) * s.hashw := (hrows i hchanged).2
      _ ≤ s.h * s.hashw := Nat.mul_le_mul_right _ hy
      _ = s.hashw * s.h := Nat.mul_comm _ _
  · rw [tableIndex_eq hw]
    refine invalidate_eq_zero hw hx hrow ?_
    rw [columns_bothDir hw] at hc
    have hover : c < x + 64 ∧ x < c + 64 := hover
    have hx : x + 64 ≤ s.w := hx
    rw [spanEnd]
    omega

/-- **Invalidation stays in the block's rows**, whatever the table holds, exactly if there are
none or the span that is cut at the width fits a row of the table. -/
theorem invalidates_rows_iff (hw : Wide s.w) (hx : x + ScrollBlockSize ≤ s.w)
    (hy : y + lines ≤ s.h) :
    (∀ table : ℕ → ℕ, InvalidatesRows { s with hashtable := table } x y lines) ↔
      lines = 0 ∨ min (x + 127) s.w ≤ npow (s.w - (ScrollBlockSize - 1)) := by
  have hhashw : s.hashw = npow (s.w - (ScrollBlockSize - 1)) := by
    have hlt : s.w < 2 ^ 31 := hw.2
    rw [hashw, columns_bothDir hw, Nat.mod_eq_of_lt (by omega)]
    rfl
  rw [← hhashw]
  constructor
  · intro hall
    by_contra hnot
    obtain ⟨hlines, hlong⟩ := not_or.mp hnot
    have hzero := invalidate_next_row (s := { s with hashtable := fun _ => 1 }) (y := y) hw hx
      hlines (Nat.lt_of_not_ge hlong)
    have hrows := (hall fun _ => 1).rows ((y + lines) * s.hashw)
      fun hsame => Nat.zero_ne_one (hzero.symm.trans hsame)
    exact Nat.lt_irrefl _ hrows.2
  · exact fun hspan table => invalidatesRows (s := { s with hashtable := table }) hw hx hy hspan

/-- A framebuffer of 64 columns and one line, whose table has two slots. -/
def narrow : ScrollHasher ℕ .bothDir :=
  ⟨64, 1, fun _ => 0, fun _ => 0, fun _ => 0, fun _ => 0, 0, 0, fun _ => 0⟩

theorem wide_narrow : Wide narrow.w := by
  unfold Wide
  decide

theorem invalidates_rows_iff_narrow :
    (∀ table : ℕ → ℕ, InvalidatesRows { narrow with hashtable := table } 0 0 1) ↔
      1 = 0 ∨ min (0 + 127) narrow.w ≤ npow (narrow.w - (ScrollBlockSize - 1)) :=
  invalidates_rows_iff wide_narrow (by decide) (by decide)

/-- The only block of one line zeroes 64 slots from the first of two on. -/
theorem narrow_overrun :
    ¬ ∀ table : ℕ → ℕ, InvalidatesRows { narrow with hashtable := table } 0 0 1 := by
  intro hall
  have hzero := @invalidate_next_row _ { narrow with hashtable := fun _ => 1 } 0 0 1 wide_narrow
    (by decide) (by decide) (by decide)
  have hrows := (hall fun _ => 1).rows _ fun hsame => Nat.zero_ne_one (hzero.symm.trans hsame)
  exact Nat.lt_irrefl _ hrows.2

end ScrollHasher

end KasmVNC.Rfb
