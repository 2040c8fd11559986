import Mathlib.Logic.Function.Basic
import Mathlib.Tactic.Ring
import KasmVNC.Lib.Actions
import KasmVNC.Lib.Undefined

/-!
# Dithering of cursors

A cursor with levels is made into a bitmap by error diffusion. The scan goes through the
rows alternately in both directions. Each entry it comes to is made black or white, and
what that is away from the level the entry had is handed on to its neighbours in
sixteenths.

The last sixteenth should go to the row below. It goes to the entry the scan has just
left.
-/

namespace KasmVNC.Rfb.Dither

open KasmVNC.Lib

/-- What the scan does to an entry of the array. -/
inductive Access
  | visit (i : ℤ)
  | add (i : ℤ)
deriving DecidableEq

structure Scan where
  data : ℤ → ℤ
  log : List Access

/-- `data[i] += error * k / 16`, where `data` points at `row` in an array of `size` entries. -/
def addError (size row i error k : ℤ) (s : Scan) : Option Scan := do
  let product ← int (error * k)
  let i ← int i
  guard (0 ≤ row + i ∧ row + i < size)
  let sum ← int (s.data (row + i) + product.tdiv 16)
  return ⟨Function.update s.data (row + i) sum, s.log ++ [.add (row + i)]⟩

/-- The entry is decided. -/
def decideEntry (size row x : ℤ) (s : Scan) : Option (ℤ × Scan) := do
  guard (0 ≤ row + x ∧ row + x < size)
  let log := s.log ++ [.visit (row + x)]
  if s.data (row + x) > 32767 then
    let error ← int (s.data (row + x) - 65535)
    return (error, ⟨Function.update s.data (row + x) 65535, log⟩)
  else
    let error ← int (s.data (row + x) - 0)
    return (error, ⟨Function.update s.data (row + x) 0, log⟩)

/-- The body of the loops. -/
def visit (width height y x_ : ℤ) (s : Scan) : Option Scan := do
  let size := width * height
  let row := y * width
  let x := if y % 2 = 1 then width - x_ - 1 else x_
  let (error, s) ← decideEntry size row x s
  if y % 2 = 1 then
    let s ← (if x > 0 then addError size row (x - 1) error 7 s else some s)
    if y + 1 < height then
      let s ← (if x > 0 then addError size row (x - 1 + width) error 3 s else some s)
      let s ← addError size row (x + width) error 5 s
      if x + 1 < width then addError size row (x + 1) error 1 s else some s
    else some s
  else
    let s ← (if x + 1 < width then addError size row (x + 1) error 7 s else some s)
    if y + 1 < height then
      let s ← (if x + 1 < width then addError size row (x + 1 + width) error 3 s else some s)
      let s ← addError size row (x + width) error 5 s
      if x > 0 then addError size row (x - 1) error 1 s else some s
    else some s

def scanRow (width height : ℤ) (s : Scan) (y : ℕ) : Option Scan :=
  (List.range width.toNat).foldlM (fun s (x_ : ℕ) => visit width height y x_ s) s

def dither (width height : ℤ) (data : ℤ → ℤ) : Option Scan :=
  (List.range height.toNat).foldlM (scanRow width height) ⟨data, []⟩

/-- No error is added to an entry after the visit to it. -/
def InTime (log : List Access) : Prop := ∀ i, Preceded (· = .add i) (.visit i ∉ ·) log

/-- **Each entry is decided once.** Everything is defined, all errors go to entries that are
still to come, and in the end all entries are black or white. -/
def DecidesOnce (width height : ℤ) (data : ℤ → ℤ) : Prop :=
  Returns (dither width height data) fun s =>
    InTime s.log ∧ ∀ i, 0 ≤ i → i < width * height → s.data i = 0 ∨ s.data i = 65535

/-! ## The two directions -/

/-- The column of the entry that is the `t`-th of its row. -/
def column (width y t : ℤ) : ℤ := if y % 2 = 1 then width - t - 1 else t

/-- `visit`, with columns counted in the direction of the scan. -/
def visitAhead (width height y t : ℤ) (s : Scan) : Option Scan := do
  let size := width * height
  let row := y * width
  let (error, s) ← decideEntry size row (column width y t) s
  let s ← (if t + 1 < width then addError size row (column width y (t + 1)) error 7 s else some s)
  if y + 1 < height then
    let s ← (if t + 1 < width then
      addError size row (column width y (t + 1) + width) error 3 s else some s)
    let s ← addError size row (column width y t + width) error 5 s
    if 0 < t then addError size row (column width y (t - 1)) error 1 s else some s
  else some s

theorem visit_eq (width height y t : ℤ) (s : Scan) :
    visit width height y t s = visitAhead width height y t s := by
  unfold visit visitAhead column
  by_cases hy : y % 2 = 1
  · have hnext : width - t - 1 > 0 ↔ t + 1 < width := by omega
    have hlast : width - t - 1 + 1 < width ↔ 0 < t := by omega
    have hnextcol : width - t - 1 - 1 = width - (t + 1) - 1 := by omega
    have hlastcol : width - t - 1 + 1 = width - (t - 1) - 1 := by omega
    simp only [if_pos hy, hnext, hlast]
    rw [hnextcol, hlastcol]
  · simp only [if_neg hy, gt_iff_lt]

section Column

variable {width height y y' t t' i : ℤ}

theorem column_column : column width y (column width y t) = t := by
  unfold column
  split_ifs <;> omega

theorem column_inj (h : column width y t = column width y t') : t = t' := by
  have hback := congrArg (column width y) h
  rwa [column_column, column_column] at hback

theorem column_bounds (hlo : 0 ≤ t) (hhi : t < width) :
    0 ≤ column width y t ∧ column width y t < width := by
  unfold column
  split_ifs <;> omega

/-- The entry that is the `t`-th of the row `y'`, in the direction of the row `y`. -/
def place (width y t y' : ℤ) : ℤ := y' * width + column width y t

theorem place_bounds (ht : 0 ≤ t) (htw : t < width) (hy : 0 ≤ y') (hyh : y' < height) :
    0 ≤ place width y t y' ∧ place width y t y' < width * height := by
  obtain ⟨hlo, hhi⟩ := column_bounds (y := y) ht htw
  have hrow : 0 ≤ y' * width := Int.mul_nonneg hy (by omega)
  have hnext : (y' + 1) * width ≤ height * width :=
    Int.mul_le_mul_of_nonneg_right (by omega) (by omega)
  have hexpand : (y' + 1) * width = y' * width + width := by ring
  have hcomm : height * width = width * height := Int.mul_comm _ _
  unfold place
  omega

theorem place_inj {y₁ y₂ : ℤ} (ht : 0 ≤ t ∧ t < width) (ht' : 0 ≤ t' ∧ t' < width)
    (h : place width y t y₁ = place width y t' y₂) : t = t' ∧ y₁ = y₂ := by
  obtain ⟨hlo, hhi⟩ := column_bounds (y := y) ht.1 ht.2
  obtain ⟨hlo', hhi'⟩ := column_bounds (y := y) ht'.1 ht'.2
  have hdiv : ∀ a {c : ℤ}, 0 ≤ c → c < width → (a * width + c) / width = a := by
    intro a c hc hcw
    rw [Int.add_comm, Int.add_mul_ediv_right _ _ (by omega), Int.ediv_eq_zero_of_lt hc hcw,
      Int.zero_add]
  unfold place at h
  have hrows : y₁ = y₂ := by rw [← hdiv y₁ hlo hhi, h, hdiv y₂ hlo' hhi']
  subst hrows
  exact ⟨column_inj (Int.add_left_cancel h), rfl⟩

end Column

/-! ## One addition -/

section Add

variable {size row i x error k : ℤ} {s : Scan}

theorem addError_log :
    Allows (addError size row i error k s) fun t => t.log = s.log ++ [.add (row + i)] := by
  unfold addError
  refine Allows.trivial.bind fun product _ => ?_
  refine Allows.bind (P := (· = i)) (fun j hj => (of_int hj).symm) fun j hj => ?_
  refine Allows.trivial.bind fun _ _ => Allows.trivial.bind fun sum _ => ?_
  exact Allows.done (by rw [hj])

theorem decideEntry_log :
    Allows (decideEntry size row x s) fun r => r.2.log = s.log ++ [.visit (row + x)] := by
  unfold decideEntry
  refine Allows.trivial.bind fun _ _ => ?_
  split <;> exact Allows.trivial.bind fun error _ => Allows.done rfl

/-- A sixteenth of an error is at most 2048. -/
theorem sixteenths_bounds {v : ℤ} (hlo : -32767 * k ≤ v) (hhi : v ≤ 32767 * k) :
    -(2048 * k) ≤ v.tdiv 16 ∧ v.tdiv 16 ≤ 2048 * k := by
  rw [Int.tdiv_eq_ediv]
  have hsign : (16 : ℤ).sign = 1 := rfl
  split_ifs <;> omega

theorem addError_returns (hi : -2 ^ 31 ≤ i ∧ i < 2 ^ 31) (hin : 0 ≤ row + i ∧ row + i < size)
    (herror : -32767 ≤ error ∧ error ≤ 32767) (hk : 0 ≤ k ∧ k ≤ 7)
    (hdata : -2 ^ 30 ≤ s.data (row + i) ∧ s.data (row + i) < 2 ^ 30) :
    Returns (addError size row i error k s) fun t =>
      ∃ d, -(2048 * k) ≤ d ∧ d ≤ 2048 * k ∧
        t.data = Function.update s.data (row + i) (s.data (row + i) + d) := by
  have hlo : -32767 * k ≤ error * k := Int.mul_le_mul_of_nonneg_right herror.1 hk.1
  have hhi : error * k ≤ 32767 * k := Int.mul_le_mul_of_nonneg_right herror.2 hk.1
  generalize hproduct : error * k = product at hlo hhi
  have hterm := sixteenths_bounds hlo hhi
  unfold addError
  rw [hproduct, int_eq (by omega) (by omega), Option.bind_eq_bind, Option.bind_some,
    int_eq hi.1 hi.2, Option.bind_eq_bind, Option.bind_some, guard_true hin,
    Option.bind_some, int_eq (by omega) (by omega)]
  exact Returns.done ⟨_, hterm.1, hterm.2, rfl⟩

end Add

/-! ## The levels along the scan -/

/-- A level with sixteenths of an error added. -/
def Near (sixteenths v : ℤ) : Prop := -(2048 * sixteenths) ≤ v ∧ v ≤ 65535 + 2048 * sixteenths

/-- Black or white, up to what has been added late. -/
def Settled (late v : ℤ) : Prop := -late ≤ v ∧ v ≤ late ∨ 65535 - late ≤ v ∧ v ≤ 65535 + late

/-- What the entries may be in front of the `t`-th visit of the row `y`. -/
def Expected (late y t t' y' v : ℤ) : Prop :=
  if y' < y ∨ y' = y ∧ t' + 1 < t then Settled late v
  else if y' = y ∧ t' < t then Settled 0 v
  else if y' = y then Near (if t' = t then 15 else 8) v
  else if y' = y + 1 then Near (if t' < t then 8 else if t' = t then 3 else 0) v
  else Near 0 v

/-- The entries of the array are as they are said to be. -/
def Levels (width height y : ℤ) (B : ℤ → ℤ → ℤ → Prop) (data : ℤ → ℤ) : Prop :=
  ∀ t' y', 0 ≤ t' → t' < width → 0 ≤ y' → y' < height → B t' y' (data (place width y t' y'))

/-- One entry is different. -/
def except (B : ℤ → ℤ → ℤ → Prop) (t₀ y₀ : ℤ) (P : ℤ → Prop) (t' y' v : ℤ) : Prop :=
  if t' = t₀ ∧ y' = y₀ then P v else B t' y' v

section Levels

variable {width height y t₀ y₀ : ℤ} {B : ℤ → ℤ → ℤ → Prop} {data : ℤ → ℤ} {P : ℤ → Prop}

theorem Levels.update {v : ℤ} (h : Levels width height y B data) (ht : 0 ≤ t₀ ∧ t₀ < width)
    (hv : P v) :
    Levels width height y (except B t₀ y₀ P) (Function.update data (place width y t₀ y₀) v) := by
  intro t' y' ht' htw' hy' hyh'
  unfold except
  by_cases heq : t' = t₀ ∧ y' = y₀
  · obtain ⟨rfl, rfl⟩ := heq
    rw [if_pos ⟨rfl, rfl⟩, Function.update_self]
    exact hv
  · rw [if_neg heq, Function.update_of_ne fun hplace => heq (place_inj ⟨ht', htw'⟩ ht hplace)]
    exact h t' y' ht' htw' hy' hyh'

/-- An error goes to an entry of which something is known. -/
theorem addError_levels {error k i : ℤ} {s : Scan} (Q : ℤ → Prop)
    (h : Levels width height y B s.data) (ht : 0 ≤ t₀ ∧ t₀ < width)
    (hy : 0 ≤ y₀ ∧ y₀ < height) (hi : y * width + i = place width y t₀ y₀)
    (hfit : -2 ^ 31 ≤ i ∧ i < 2 ^ 31) (herror : -32767 ≤ error ∧ error ≤ 32767)
    (hk : 0 ≤ k ∧ k ≤ 7) (hold : ∀ v, B t₀ y₀ v → Q v) (hsmall : ∀ v, Q v → -2 ^ 30 ≤ v ∧ v < 2 ^ 30)
    (hnew : ∀ v d, Q v → -(2048 * k) ≤ d → d ≤ 2048 * k → P (v + d)) :
    Returns (addError (width * height) (y * width) i error k s) fun t =>
      Levels width height y (except B t₀ y₀ P) t.data := by
  have hlevel := hold _ (h t₀ y₀ ht.1 ht.2 hy.1 hy.2)
  have hin := place_bounds (y := y) ht.1 ht.2 hy.1 hy.2
  rw [← hi] at hin hlevel
  refine (addError_returns hfit hin herror hk (hsmall _ hlevel)).mono ?_
  rintro u ⟨d, hlo, hhi, hdata⟩
  rw [hdata, hi]
  rw [hi] at hlevel
  exact h.update ht (hnew _ d hlevel hlo hhi)

/-- The visit makes the entry black or white. -/
theorem decideEntry_levels {s : Scan} (h : Levels width height y B s.data)
    (ht : 0 ≤ t₀ ∧ t₀ < width) (hy : 0 ≤ y ∧ y < height) (hold : ∀ v, B t₀ y v → Near 15 v) :
    Returns (decideEntry (width * height) (y * width) (column width y t₀) s) fun r =>
      (-32767 ≤ r.1 ∧ r.1 ≤ 32767) ∧
        Levels width height y (except B t₀ y (Settled 0)) r.2.data := by
  have hnear := hold _ (h t₀ y ht.1 ht.2 hy.1 hy.2)
  have hin := place_bounds (y := y) ht.1 ht.2 hy.1 hy.2
  unfold Near at hnear
  unfold place at hnear hin
  unfold decideEntry
  rw [guard_true hin, Option.bind_eq_bind, Option.bind_some]
  by_cases hwhite : s.data (y * width + column width y t₀) > 32767
  · simp only [if_pos hwhite]
    rw [int_eq (by omega) (by omega), Option.bind_eq_bind, Option.bind_some]
    exact Returns.done ⟨⟨by omega, by omega⟩, h.update ht (Or.inr ⟨by omega, by omega⟩)⟩
  · simp only [if_neg hwhite]
    rw [int_eq (by omega) (by omega), Option.bind_eq_bind, Option.bind_some]
    exact Returns.done ⟨⟨by omega, by omega⟩, h.update ht (Or.inl ⟨by omega, by omega⟩)⟩

theorem Levels.mono {B' : ℤ → ℤ → ℤ → Prop} (h : Levels width height y B data)
    (himp : ∀ t' y' v, 0 ≤ t' → t' < width → 0 ≤ y' → y' < height → B t' y' v → B' t' y' v) :
    Levels width height y B' data := fun t' y' ht htw hy hyh =>
  himp t' y' _ ht htw hy hyh (h t' y' ht htw hy hyh)

/-- Nothing is said of entries beside the array. -/
theorem Levels.beside (h : Levels width height y B data) (hout : t₀ < 0 ∨ width ≤ t₀) :
    Levels width height y (except B t₀ y₀ P) data := by
  refine h.mono fun t' y' v ht htw _ _ hB => ?_
  unfold except
  rw [if_neg (by omega)]
  exact hB

theorem returns_ite {c : Prop} [Decidable c] {f : Option Scan} {s : Scan} {R : Scan → Prop}
    (hthen : c → Returns f R) (helse : ¬c → R s) :
    Returns (if c then f else some s) R := by
  split
  · exact hthen (by assumption)
  · exact Returns.done (helse (by assumption))

end Levels

section Visit

variable {late width height y t v : ℤ}

theorem expected_here (h : Expected late y t t y v) : Near 15 v := by
  unfold Expected at h
  rwa [if_neg (by omega), if_neg (by omega), if_pos rfl, if_pos rfl] at h

theorem expected_next (h : Expected late y t (t + 1) y v) : Near 8 v := by
  unfold Expected at h
  rwa [if_neg (by omega), if_neg (by omega), if_pos rfl, if_neg (by omega)] at h

theorem expected_last (h : Expected late y t (t - 1) y v) : Settled 0 v := by
  unfold Expected at h
  rwa [if_neg (by omega), if_pos (by omega)] at h

theorem expected_below (h : Expected late y t t (y + 1) v) : Near 3 v := by
  unfold Expected at h
  rwa [if_neg (by omega), if_neg (by omega), if_neg (by omega), if_pos rfl, if_neg (by omega),
    if_pos rfl] at h

theorem expected_below_next (h : Expected late y t (t + 1) (y + 1) v) : Near 0 v := by
  unfold Expected at h
  rwa [if_neg (by omega), if_neg (by omega), if_neg (by omega), if_pos rfl, if_neg (by omega),
    if_neg (by omega)] at h

/-- What the entries may be when the errors have gone to the row of the scan. -/
def Decided (late y t : ℤ) : ℤ → ℤ → ℤ → Prop :=
  except (except (Expected late y t) t y (Settled 0)) (t + 1) y (Near 15)

/-- What they may be when the errors have gone to both rows. -/
def Spread (late y t : ℤ) : ℤ → ℤ → ℤ → Prop :=
  except (except (except (Decided late y t) (t + 1) (y + 1) (Near 3)) t (y + 1) (Near 8)) (t - 1) y
    (Settled late)

theorem near_mono {m n : ℤ} (hmn : m ≤ n) (h : Near m v) : Near n v := by
  unfold Near at *
  omega

theorem Settled.mono {m n : ℤ} (hmn : m ≤ n) (h : Settled m v) : Settled n v := by
  unfold Settled at *
  omega

/-- Entries the visit has nothing to do with. -/
theorem expected_apart {t' y' : ℤ} (hrow : y' ≠ y) (hbelow : y' ≠ y + 1)
    (h : Expected late y t t' y' v) : Expected late y (t + 1) t' y' v := by
  unfold Expected at *
  rcases lt_or_gt_of_ne hrow with hlt | hgt
  · rw [if_pos (Or.inl hlt)] at *
    exact h
  · simp (disch := omega) only [if_neg] at *
    exact h

/-- The row of the scan. -/
theorem decided_expected {t' : ℤ} (hlate : 0 ≤ late) (h : Decided late y t t' y v) :
    Expected late y (t + 1) t' y v := by
  unfold Decided except Expected at h
  unfold Expected
  rcases lt_trichotomy t' t with hlt | rfl | hgt
  · have hsettled : Settled late v := by
      by_cases hlast : t' + 1 < t
      · simp (disch := omega) only [true_and, and_true, lt_self_iff_false, false_or, if_pos, if_neg] at h
        exact h
      · simp (disch := omega) only [true_and, and_true, lt_self_iff_false, false_or, if_pos, if_neg] at h
        exact h.mono hlate
    rw [if_pos (by omega)]
    exact hsettled
  · simp (disch := omega) only [true_and, and_true, lt_self_iff_false, false_or, if_true,
      if_pos, if_neg] at *
    exact h
  · by_cases hnext : t' = t + 1
    · simp (disch := omega) only [true_and, and_true, lt_self_iff_false, false_or, if_true,
      if_pos, if_neg] at *
      exact h
    · simp (disch := omega) only [true_and, and_true, lt_self_iff_false, false_or, if_true,
      if_pos, if_neg] at *
      exact h

/-- The row below. -/
theorem spread_expected_below {t' : ℤ} (h : Spread late y t t' (y + 1) v) :
    Expected late y (t + 1) t' (y + 1) v := by
  unfold Spread Decided except Expected at h
  unfold Expected
  rcases lt_trichotomy t' t with hlt | rfl | hgt
  · simp (disch := omega) only [and_true, if_true,
      if_pos, if_neg] at *
    exact h
  · simp (disch := omega) only [true_and, and_true, lt_self_iff_false, if_true,
      if_pos, if_neg] at *
    exact h
  · by_cases hnext : t' = t + 1
    · simp (disch := omega) only [and_true, if_true,
      if_pos, if_neg] at *
      exact h
    · simp (disch := omega) only [and_true, if_true,
      if_pos, if_neg] at *
      exact h

theorem spread_expected {t' y' : ℤ} (hlate : 0 ≤ late) (h : Spread late y t t' y' v) :
    Expected late y (t + 1) t' y' v := by
  by_cases hbelow : y' = y + 1
  · subst hbelow
    exact spread_expected_below h
  by_cases hrow : y' = y
  · subst hrow
    by_cases hlast : t' = t - 1
    · unfold Spread except at h
      rw [if_pos ⟨hlast, rfl⟩] at h
      unfold Expected
      rw [if_pos (by omega)]
      exact h
    · refine decided_expected hlate ?_
      unfold Spread except at h
      simp (disch := omega) only [if_neg] at h
      exact h
  · refine expected_apart hrow hbelow ?_
    unfold Spread Decided except at h
    simp (disch := omega) only [if_neg] at h
    exact h

/-- **One visit.** -/
theorem visit_levels {s : Scan} (hwidth : width < 2 ^ 31) (hindex : 1 < height → width ≤ 2 ^ 30)
    (hlate : 0 ≤ late) (hback : 1 < width → 1 < height → 2048 ≤ late)
    (ht : 0 ≤ t ∧ t < width) (hy : 0 ≤ y ∧ y < height)
    (h : Levels width height y (Expected late y t) s.data) :
    Returns (visit width height y t s) fun u =>
      Levels width height y (Expected late y (t + 1)) u.data := by
  have hcolumn : ∀ {t'}, 0 ≤ t' → t' < width →
      0 ≤ column width y t' ∧ column width y t' < width := column_bounds
  rw [visit_eq]
  unfold visitAhead
  refine (decideEntry_levels h ht hy fun v => expected_here).bind ?_
  rintro ⟨error, s₁⟩ ⟨herror, h₁⟩
  dsimp only at herror h₁ ⊢
  -- the next entry of the row
  have hnext : Returns (if t + 1 < width then addError (width * height) (y * width)
      (column width y (t + 1)) error 7 s₁ else some s₁) fun u =>
        Levels width height y (Decided late y t) u.data := by
    refine returns_ite (fun hin => ?_) fun hout => h₁.beside (Or.inr (by omega))
    have hfit := @hcolumn (t + 1) (by omega) hin
    refine addError_levels (Near 8) h₁ ⟨by omega, hin⟩ hy rfl ⟨by omega, by omega⟩ herror
      ⟨by omega, by omega⟩ (fun v hv => ?_) (fun v hv => ?_) fun v d hv hlo hhi => ?_
    · unfold except at hv
      rw [if_neg (by omega)] at hv
      exact expected_next hv
    · unfold Near at hv
      omega
    · unfold Near at *
      omega
  refine hnext.bind fun s₂ h₂ => ?_
  by_cases hbelow : y + 1 < height
  swap
  · rw [if_neg hbelow]
    refine Returns.done (h₂.mono fun t' y' v _ _ _ hy' hv => ?_)
    by_cases hrow : y' = y
    · subst hrow
      exact decided_expected hlate hv
    · refine expected_apart hrow (by omega) ?_
      unfold Decided except at hv
      simp (disch := omega) only [if_neg] at hv
      exact hv
  rw [if_pos hbelow]
  have hplace : ∀ t', y * width + (column width y t' + width) = place width y t' (y + 1) := by
    intro t'
    unfold place
    ring
  -- the row below
  have hnextbelow : Returns (if t + 1 < width then addError (width * height) (y * width)
      (column width y (t + 1) + width) error 3 s₂ else some s₂) fun u =>
        Levels width height y (except (Decided late y t) (t + 1) (y + 1) (Near 3)) u.data := by
    refine returns_ite (fun hin => ?_) fun hout => h₂.beside (Or.inr (by omega))
    have hfit := @hcolumn (t + 1) (by omega) hin
    refine addError_levels (Near 0) h₂ ⟨by omega, hin⟩ ⟨by omega, hbelow⟩ (hplace _)
      ⟨by omega, by omega⟩ herror ⟨by omega, by omega⟩ (fun v hv => ?_) (fun v hv => ?_)
      fun v d hv hlo hhi => ?_
    · unfold Decided except at hv
      simp (disch := omega) only [if_neg] at hv
      exact expected_below_next hv
    · unfold Near at hv
      omega
    · unfold Near at *
      omega
  refine hnextbelow.bind fun s₃ h₃ => ?_
  have hfit := hcolumn ht.1 ht.2
  have hunder := addError_levels (k := 5) (P := Near 8) (Near 3) h₃ ht
    ⟨by omega, hbelow⟩ (hplace t) ⟨by omega, by omega⟩ herror ⟨by omega, by omega⟩
    (fun v hv => by
      unfold Decided except at hv
      simp (disch := omega) only [if_neg] at hv
      exact expected_below hv)
    (fun v hv => by
      unfold Near at hv
      omega)
    (fun v d hv hlo hhi => by
      unfold Near at *
      omega)
  refine hunder.bind fun s₄ h₄ => ?_
  -- the entry the scan has left
  have hlast : Returns (if 0 < t then addError (width * height) (y * width)
      (column width y (t - 1)) error 1 s₄ else some s₄) fun u =>
        Levels width height y (Spread late y t) u.data := by
    refine returns_ite (fun hin => ?_) fun hout => h₄.beside (Or.inl (by omega))
    have hfit := @hcolumn (t - 1) (by omega) (by omega)
    have hroom := hback (by omega) (by omega)
    refine addError_levels (Settled 0) h₄ ⟨by omega, by omega⟩ hy rfl ⟨by omega, by omega⟩ herror
      ⟨by omega, by omega⟩ (fun v hv => ?_) (fun v hv => ?_) fun v d hv hlo hhi => ?_
    · unfold Decided except at hv
      simp (disch := omega) only [if_neg] at hv
      exact expected_last hv
    · unfold Settled at hv
      omega
    · unfold Settled at *
      omega
  exact hlast.mono fun u hu => hu.mono fun t' y' v _ _ _ _ hv => spread_expected hlate hv

/-- The end of a row is the start of the next one, in the other direction. -/
theorem levels_turn {data : ℤ → ℤ} (hlate : 0 ≤ late)
    (h : Levels width height y (Expected late y width) data) :
    Levels width height (y + 1) (Expected late (y + 1) 0) data := by
  intro t' y' ht htw hy hyh
  obtain ⟨hlo, hhi⟩ := column_bounds (y := y + 1) ht htw
  obtain ⟨hlo', hhi'⟩ := column_bounds (y := y) hlo hhi
  have hold := h _ y' hlo' hhi' hy hyh
  have hplace : place width y (column width y (column width (y + 1) t')) y' =
      place width (y + 1) t' y' := by
    unfold place
    rw [column_column]
  rw [hplace] at hold
  generalize column width y (column width (y + 1) t') = u at hlo' hhi' hold
  generalize data (place width (y + 1) t' y') = v at hold
  unfold Expected at hold ⊢
  rcases lt_trichotomy y' (y + 1) with hlt | rfl | hgt
  · rw [if_pos (Or.inl hlt)]
    by_cases hend : y' < y ∨ y' = y ∧ u + 1 < width
    · rwa [if_pos hend] at hold
    · rw [if_neg hend, if_pos ⟨by omega, hhi'⟩] at hold
      exact hold.mono hlate
  · simp (disch := omega) only [if_true, if_pos, if_neg] at hold
    rw [if_neg (by omega), if_neg (by omega), if_pos rfl]
    refine near_mono ?_ hold
    split_ifs <;> omega
  · simp (disch := omega) only [if_neg] at hold
    rw [if_neg (by omega), if_neg (by omega), if_neg (by omega)]
    by_cases hnext : y' = y + 1 + 1
    · rw [if_pos hnext]
      refine near_mono ?_ hold
      split_ifs <;> omega
    · rwa [if_neg hnext]

theorem scanRow_levels {s : Scan} {n : ℕ} (hwidth : width < 2 ^ 31)
    (hindex : 1 < height → width ≤ 2 ^ 30) (hlate : 0 ≤ late)
    (hback : 1 < width → 1 < height → 2048 ≤ late) (hn : (n : ℤ) < height)
    (h : Levels width height n (Expected late n 0) s.data) :
    Returns (scanRow width height s n) fun u =>
      Levels width height (n + 1 : ℕ) (Expected late (n + 1 : ℕ) 0) u.data := by
  unfold scanRow
  have hrow := Returns.foldlM_range (n := width.toNat)
    (f := fun s (x_ : ℕ) => visit width height n x_ s)
    (fun k u => Levels width height n (Expected late n k) u.data) h
    fun k hk u hu => visit_levels hwidth hindex hlate hback ⟨by omega, by omega⟩
      ⟨by omega, hn⟩ hu
  refine hrow.mono fun u hu => ?_
  rw [Nat.cast_succ]
  refine levels_turn hlate (hu.mono fun t' y' v ht htw _ _ hv => ?_)
  rwa [Int.toNat_of_nonneg (by omega)] at hv

end Visit

section Dither

variable {late width height : ℤ} {data : ℤ → ℤ}

theorem levels_start (hdata : ∀ i, 0 ≤ i → i < width * height → 0 ≤ data i ∧ data i ≤ 65535) :
    Levels width height 0 (Expected late 0 0) data := by
  intro t' y' ht htw hy hyh
  obtain ⟨hlo, hhi⟩ := place_bounds (y := 0) ht htw hy hyh
  have hnear : Near 0 (data (place width 0 t' y')) := hdata _ hlo hhi
  unfold Expected
  rw [if_neg (by omega), if_neg (by omega)]
  split_ifs
  all_goals first | exact hnear | exact near_mono (by omega) hnear

/-- **The scan is defined**, and what has been added late leaves the entries close to black and
white. -/
theorem dither_levels {width height : ℕ} (hwidth : width < 2 ^ 31)
    (hindex : 1 < height → width ≤ 2 ^ 30) (hlate : 0 ≤ late)
    (hback : 1 < width → 1 < height → 2048 ≤ late)
    (hdata : ∀ i : ℤ, 0 ≤ i → i < width * height → 0 ≤ data i ∧ data i ≤ 65535) :
    Returns (dither width height data) fun s =>
      ∀ i : ℤ, 0 ≤ i → i < width * height → Settled late (s.data i) := by
  have hrows := Returns.foldlM_range (n := (height : ℤ).toNat) (f := scanRow width height)
    (s := ⟨data, []⟩) (fun n s => Levels width height n (Expected late n 0) s.data)
    (levels_start hdata)
    fun n hn s hs => scanRow_levels (by omega) (by omega) hlate (by omega) (by omega) hs
  refine hrows.mono fun s hs i hlo hhi => ?_
  rw [Int.toNat_natCast] at hs
  -- the entry `i` is in the row `i / width`
  have hpos : (0 : ℤ) < width := by
    rcases Nat.eq_zero_or_pos width with rfl | hpos
    · rw [Nat.cast_zero, Int.zero_mul] at hhi
      omega
    · omega
  have hcolumn : 0 ≤ i % width ∧ i % width < width :=
    ⟨Int.emod_nonneg i (by omega), Int.emod_lt_of_pos i hpos⟩
  obtain ⟨hclo, hchi⟩ := column_bounds (y := height) hcolumn.1 hcolumn.2
  have hsettled := hs _ (i / width) hclo hchi (Int.ediv_nonneg hlo (by omega))
    (Int.ediv_lt_of_lt_mul hpos (by rwa [Int.mul_comm]))
  have hplace : place width height (column width height (i % width)) (i / width) = i := by
    unfold place
    rw [column_column, Int.mul_comm]
    exact Int.mul_ediv_add_emod i width
  rw [hplace] at hsettled
  unfold Expected at hsettled
  rwa [if_pos (Or.inl (Int.ediv_lt_of_lt_mul hpos (by rwa [Int.mul_comm])))] at hsettled

end Dither

/-! ## The order of the accesses -/

section Log

variable {size row i x error k y t : ℤ} {width height : ℕ} {log : List Access} {s : Scan}

theorem inTime_visit (h : InTime log) : InTime (log ++ [.visit i]) := fun j =>
  (h j).concat fun heq => Access.noConfusion heq

theorem inTime_add (h : InTime log) (hi : .visit i ∉ log) : InTime (log ++ [.add i]) := by
  refine fun j => (h j).concat fun heq => ?_
  cases heq
  exact hi

theorem not_inTime_add (hi : .visit i ∈ log) : ¬InTime (log ++ [.add i]) :=
  fun h => h i log _ [] rfl rfl hi

theorem InTime.left {later : List Access} (h : InTime (log ++ later)) : InTime log :=
  fun i => (h i).left

/-- The scan has been through the array up to the entry `k`. -/
def UpTo (k : ℤ) (log : List Access) : Prop := (∀ i, .visit i ∈ log → i < k) ∧ InTime log

theorem decideEntry_upTo (h : UpTo (row + x) s.log) :
    Allows (decideEntry size row x s) fun r => UpTo (row + x + 1) r.2.log := by
  refine decideEntry_log.mono fun r hr => ?_
  rw [hr]
  refine ⟨fun i hi => ?_, inTime_visit h.2⟩
  rcases List.mem_append.mp hi with hold | hnew
  · exact (h.1 i hold).trans (Int.lt_succ _)
  · cases List.mem_singleton.mp hnew
    exact Int.lt_succ _

theorem addError_upTo (h : UpTo k s.log) {c : ℤ} (hi : k ≤ row + i) :
    Allows (addError size row i error c s) fun t => UpTo k t.log := by
  refine addError_log.mono fun t ht => ?_
  rw [ht]
  refine ⟨fun j hj => ?_, inTime_add h.2 fun hvisit => absurd (h.1 _ hvisit) (by omega)⟩
  rcases List.mem_append.mp hj with hold | hnew
  · exact h.1 j hold
  · cases List.mem_singleton.mp hnew

theorem allows_ite {c : Prop} [Decidable c] {f : Option Scan} {R : Scan → Prop}
    (hthen : c → Allows f R) (helse : ¬c → R s) :
    Allows (if c then f else some s) R := by
  split
  · exact hthen (by assumption)
  · exact Allows.done (helse (by assumption))

/-- A single row or column is gone through in order, and errors go to the next entry. -/
theorem visit_upTo (hsingle : width ≤ 1 ∨ height ≤ 1) (ht : 0 ≤ t ∧ t < width)
    (hy : 0 ≤ y ∧ y < height) (h : UpTo (y * width + t) s.log) :
    Allows (visit width height y t s) fun u => UpTo (y * width + (t + 1)) u.log := by
  have hcolumn : ∀ t', column width y t' = t' ∨ (width : ℤ) = 1 := by
    intro t'
    unfold column
    split_ifs <;> omega
  have hfirst : column width y t = t := by
    unfold column
    split_ifs <;> omega
  rw [visit_eq]
  unfold visitAhead
  have hdecide : Allows (decideEntry (width * height) (y * width) (column width y t) s) fun r =>
      UpTo (y * width + column width y t + 1) r.2.log := decideEntry_upTo (by rwa [hfirst])
  rw [hfirst, Int.add_assoc] at hdecide
  rw [hfirst]
  refine hdecide.bind ?_
  rintro ⟨error, s₁⟩ h₁
  dsimp only at h₁ ⊢
  have hnext : Allows (if t + 1 < width then addError (width * height) (y * width)
      (column width y (t + 1)) error 7 s₁ else some s₁) fun u =>
        UpTo (y * width + (t + 1)) u.log := by
    refine allows_ite (fun hin => addError_upTo h₁ ?_) fun _ => h₁
    rcases hcolumn (t + 1) with heq | hone <;> omega
  refine hnext.bind fun s₂ h₂ => ?_
  by_cases hbelow : y + 1 < height
  swap
  · rw [if_neg hbelow]
    exact Allows.done h₂
  -- there is a row below, so there is one column
  rw [if_pos hbelow, if_neg (by omega), Option.bind_eq_bind, Option.bind_some]
  refine (addError_upTo h₂ (by omega)).bind fun s₃ h₃ => ?_
  exact allows_ite (fun hin => absurd hin (by omega)) fun _ => h₃

theorem dither_upTo (hsingle : width ≤ 1 ∨ height ≤ 1) (data : ℤ → ℤ) :
    Allows (dither width height data) fun s => InTime s.log := by
  have hrows := Allows.foldlM_range (n := (height : ℤ).toNat) (f := scanRow width height)
    (s := ⟨data, []⟩) (fun n s => UpTo (n * width) s.log)
    ⟨fun i hi => absurd hi (List.not_mem_nil), fun i => preceded_nil⟩ fun n hn s hs => ?_
  · exact hrows.mono fun s hs => hs.2
  unfold scanRow
  have hrow := Allows.foldlM_range (n := (width : ℤ).toNat)
    (f := fun s (x_ : ℕ) => visit width height n x_ s) (s := s)
    (fun k u => UpTo (n * width + k) u.log) (by rwa [Nat.cast_zero, Int.add_zero])
    fun k hk u hu => (visit_upTo hsingle ⟨by omega, by omega⟩ ⟨by omega, by omega⟩ hu)
  refine hrow.mono fun u hu => ?_
  have hend : (n : ℤ) * width + ((width : ℤ).toNat : ℕ) = (n + 1 : ℕ) * width := by
    rw [Int.toNat_natCast, Nat.cast_succ]
    ring
  rwa [hend] at hu

/-! ## The sixteenth that comes late -/

theorem addError_grows {c : ℤ} : Allows (addError size row i error c s) fun t => s.log <+: t.log :=
  addError_log.mono fun t ht => by
    rw [ht]
    exact List.prefix_append _ _

/-- Whatever a visit does comes after what has been done. -/
theorem visit_grows {w h : ℤ} :
    Allows (visit w h y t s) fun u => s.log ++ [.visit (y * w + column w y t)] <+: u.log := by
  rw [visit_eq]
  unfold visitAhead
  refine decideEntry_log.bind ?_
  rintro ⟨error, s₁⟩ h₁
  dsimp only at h₁ ⊢
  rw [← h₁]
  have hadd : ∀ {c : Prop} [Decidable c] {i k : ℤ} {u : Scan}, s₁.log <+: u.log →
      Allows (if c then addError (w * h) (y * w) i error k u else some u) fun u' =>
        s₁.log <+: u'.log := fun hu =>
    allows_ite (fun _ => addError_grows.mono fun u' hu' => hu.trans hu') fun _ => hu
  refine (hadd List.prefix_rfl).bind fun s₂ h₂ => ?_
  refine allows_ite (fun _ => ?_) fun _ => h₂
  refine (hadd h₂).bind fun s₃ h₃ => ?_
  refine (addError_grows.mono fun u' hu' => h₃.trans hu').bind fun s₄ h₄ => ?_
  exact hadd h₄

theorem visit_grows_log {w h : ℤ} : Allows (visit w h y t s) fun u => s.log <+: u.log :=
  visit_grows.mono fun _ hu => (List.prefix_append _ _).trans hu

theorem late_grows {log' : List Access} (h : ¬InTime log) (hle : log <+: log') : ¬InTime log' := by
  obtain ⟨later, rfl⟩ := hle
  exact fun htime => h htime.left

/-- The second visit of the first row hands an error back to the first entry. -/
theorem visit_late (hheight : 2 ≤ height) (hvisited : .visit 0 ∈ s.log) :
    Allows (visit width height 0 1 s) fun u => ¬InTime u.log := by
  rw [visit_eq]
  unfold visitAhead
  refine decideEntry_log.bind ?_
  rintro ⟨error, s₁⟩ h₁
  dsimp only at h₁ ⊢
  have hone : .visit 0 ∈ s₁.log := by
    rw [h₁]
    exact List.mem_append_left _ hvisited
  have hadd : ∀ {c : Prop} [Decidable c] {i k : ℤ} {u : Scan}, .visit 0 ∈ u.log →
      Allows (if c then addError (width * height) (0 * width) i error k u else some u) fun u' =>
        .visit 0 ∈ u'.log := fun hu =>
    allows_ite (fun _ => addError_grows.mono fun u' hu' => hu'.subset hu) fun _ => hu
  refine (hadd hone).bind fun s₂ h₂ => ?_
  rw [if_pos (by omega)]
  refine (hadd h₂).bind fun s₃ h₃ => ?_
  refine (addError_grows.mono fun u' hu' => hu'.subset h₃).bind fun s₄ h₄ => ?_
  rw [if_pos (by omega)]
  refine addError_log.mono fun u hu => ?_
  rw [hu]
  have hback : (0 : ℤ) * width + column width 0 (1 - 1) = 0 := by
    unfold column
    rw [if_neg (by omega)]
    ring
  rw [hback]
  exact not_inTime_add h₄

theorem dither_late (hwidth : 2 ≤ width) (hheight : 2 ≤ height) (data : ℤ → ℤ) :
    Allows (dither width height data) fun s => ¬InTime s.log := by
  have hfirst : ∀ s, Allows (scanRow width height s 0) fun u => ¬InTime u.log := by
    intro s
    unfold scanRow
    have hrow := Allows.foldlM_range (n := (width : ℤ).toNat)
      (f := fun s (x_ : ℕ) => visit width height (0 : ℕ) x_ s) (s := s)
      (fun k u => (1 ≤ k → .visit 0 ∈ u.log) ∧ (2 ≤ k → ¬InTime u.log))
      ⟨fun h => absurd h (by decide), fun h => absurd h (by decide)⟩ fun k hk u hu => ?_
    · exact hrow.mono fun u hu => hu.2 (by omega)
    obtain ⟨hvisited, hlate⟩ := hu
    match k with
    | 0 =>
      refine visit_grows.mono fun v hv => ⟨fun _ => hv.subset ?_, fun h => absurd h (by decide)⟩
      have hplace : ((0 : ℕ) : ℤ) * width + column width (0 : ℕ) (0 : ℕ) = 0 := by
        unfold column
        rw [if_neg (by decide)]
        ring
      rw [hplace]
      exact List.mem_append_right _ (List.mem_singleton.mpr rfl)
    | 1 =>
      have hone := hvisited le_rfl
      intro v hv
      exact ⟨fun _ => (visit_grows_log v hv).subset hone,
        fun _ => visit_late hheight hone v hv⟩
    | k + 2 =>
      refine visit_grows_log.mono fun v hv => ⟨fun _ => hv.subset (hvisited (by omega)), fun _ => ?_⟩
      exact late_grows (hlate (by omega)) hv
  have hlater : ∀ n s, Allows (scanRow width height s n) fun u => s.log <+: u.log := by
    intro n s
    unfold scanRow
    exact Allows.foldlM List.prefix_rfl fun x_ _ u hu =>
      visit_grows_log.mono fun v hv => hu.trans hv
  unfold dither
  have hrows := Allows.foldlM_range (n := (height : ℤ).toNat) (f := scanRow width height)
    (s := ⟨data, []⟩) (fun n s => 1 ≤ n → ¬InTime s.log) (fun h => absurd h (by decide))
    fun n hn s hs => ?_
  · exact hrows.mono fun s hs => hs (by omega)
  match n with
  | 0 => exact (hfirst s).mono fun u hu _ => hu
  | n + 1 => exact (hlater _ s).mono fun u hu _ => late_grows (hs (by omega)) hu

end Log

/-- **Each entry is decided once exactly in a single row or column.** -/
theorem decidesOnce_iff {width height : ℕ} (hwidth : width < 2 ^ 31) {data : ℤ → ℤ}
    (hdata : ∀ i : ℤ, 0 ≤ i → i < width * height → 0 ≤ data i ∧ data i ≤ 65535) :
    DecidesOnce width height data ↔ width ≤ 1 ∨ height ≤ 1 := by
  constructor
  · rintro ⟨s, hs, htime, -⟩
    by_contra hsizes
    exact dither_late (by omega) (by omega) data s hs htime
  · intro hsingle
    obtain ⟨s, hs, hsettled⟩ := dither_levels hwidth (by omega) (le_refl 0) (by omega) hdata
    refine ⟨s, hs, dither_upTo hsingle data s hs, fun i hlo hhi => ?_⟩
    have hlevel := hsettled i hlo hhi
    unfold Settled at hlevel
    omega

/-- Of two rows of two entries the second has a level. The first one is handed a sixteenth of
it after it has been made black. -/
theorem decided_twice :
    (dither 2 2 fun i => if i = 1 then 30000 else 0).map (fun s => s.data 0) = some 1875 ∧
      ¬DecidesOnce 2 2 fun i => if i = 1 then 30000 else 0 := by
  have hgray : (dither 2 2 fun i => if i = 1 then 30000 else 0).map (fun s => s.data 0) =
      some 1875 := by decide
  refine ⟨hgray, ?_⟩
  rintro ⟨s, hs, -, hall⟩
  rw [hs, Option.map_some, Option.some_inj] at hgray
  have hfirst := hall 0 le_rfl (by decide)
  omega

/-- A column of three entries. -/
theorem decidesOnce_column : DecidesOnce 1 3 fun i => 20000 * i :=
  (@decidesOnce_iff 1 3 (by decide) _ fun i hlo hhi => by omega).mpr (.inl le_rfl)

end KasmVNC.Rfb.Dither
