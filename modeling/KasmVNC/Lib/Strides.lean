import Mathlib.Data.Int.Order.Basic
import Mathlib.Tactic.Ring

/-!
# Strides

The start points of a loop `for (x = lo; x < hi; x += step)`, and how many there
are. Two such loops cut a rectangle into tiles.
-/

namespace KasmVNC.Lib

/-- At most `n` start points from `x` on. -/
def stridesFrom (step hi : ℤ) : ℕ → ℤ → List ℤ
  | 0, _ => []
  | n + 1, x => if x < hi then x :: stridesFrom step hi n (x + step) else []

/-- The loop makes at most one turn per integer of the range. -/
def strides (step lo hi : ℤ) : List ℤ := stridesFrom step hi (hi - lo).toNat lo

/-- One turn more per `step`, rounded up. -/
theorem length_stridesFrom {step hi : ℤ} (hstep : 0 < step) :
    ∀ {n : ℕ} {x : ℤ}, x < hi → hi - x ≤ n →
      ((stridesFrom step hi n x).length : ℤ) = (hi - x - 1) / step + 1
  | 0, x, hlt, hn => by
    have : hi - x ≤ 0 := hn
    omega
  | n + 1, x, hlt, hn => by
    rw [stridesFrom, if_pos hlt, List.length_cons, Nat.cast_succ]
    have hdiv : (hi - x - 1) / step = (hi - (x + step) - 1) / step + 1 := by
      rw [show hi - x - 1 = hi - (x + step) - 1 + step by ring,
        Int.add_ediv_of_dvd_right (dvd_refl step), Int.ediv_self hstep.ne']
    by_cases hnext : x + step < hi
    · have hfuel : hi - (x + step) ≤ n := by
        have : ((n + 1 : ℕ) : ℤ) = n + 1 := Nat.cast_succ n
        omega
      rw [length_stridesFrom hstep hnext hfuel, hdiv]
    · have hlast : (hi - x - 1) / step = 0 :=
        Int.ediv_eq_zero_of_lt (by omega) (by omega)
      cases n with
      | zero => simp [stridesFrom, hlast]
      | succ n => simp [stridesFrom, if_neg hnext, hlast]

theorem length_strides {step lo hi : ℤ} (hstep : 0 < step) (h : lo < hi) :
    ((strides step lo hi).length : ℤ) = (hi - lo - 1) / step + 1 :=
  length_stridesFrom hstep h (Int.self_le_toNat _)

/-! ## The pieces -/

/-- Start points lie in the range, at multiples of the step. -/
theorem mem_stridesFrom {step hi s : ℤ} (hstep : 0 < step) : ∀ {n : ℕ} {x : ℤ},
    s ∈ stridesFrom step hi n x → (x ≤ s ∧ s < hi) ∧ step ∣ s - x
  | n + 1, x, h => by
    rw [stridesFrom] at h
    split at h
    · rename_i hlt
      rcases List.mem_cons.mp h with rfl | h
      · exact ⟨⟨le_rfl, hlt⟩, by simp⟩
      · obtain ⟨⟨hle, hlt⟩, hdvd⟩ := mem_stridesFrom hstep h
        refine ⟨⟨by omega, hlt⟩, ?_⟩
        have hsplit : s - x = s - (x + step) + step := by ring
        rw [hsplit]
        exact Int.dvd_add hdvd (dvd_refl step)
    · cases h

theorem mem_strides {step lo hi s : ℤ} (hstep : 0 < step) (h : s ∈ strides step lo hi) :
    (lo ≤ s ∧ s < hi) ∧ step ∣ s - lo :=
  mem_stridesFrom hstep h

/-- Every point of the range lies in a piece. -/
theorem exists_mem_stridesFrom {step hi y : ℤ} (hstep : 0 < step) : ∀ {n : ℕ} {x : ℤ},
    x ≤ y → y < hi → hi - x ≤ n → ∃ s ∈ stridesFrom step hi n x, s ≤ y ∧ y < s + step
  | 0, x, hxy, hy, hn => by
    have : hi - x ≤ 0 := hn
    omega
  | n + 1, x, hxy, hy, hn => by
    rw [stridesFrom, if_pos (lt_of_le_of_lt hxy hy)]
    by_cases hnear : y < x + step
    · exact ⟨x, List.mem_cons_self, hxy, hnear⟩
    · have hcast : ((n + 1 : ℕ) : ℤ) = n + 1 := Nat.cast_succ n
      obtain ⟨s, hs, hsy⟩ := exists_mem_stridesFrom hstep (not_lt.mp hnear) hy
        (n := n) (by omega)
      exact ⟨s, List.mem_cons_of_mem x hs, hsy⟩

theorem exists_mem_strides {step lo hi y : ℤ} (hstep : 0 < step) (hlo : lo ≤ y)
    (hhi : y < hi) : ∃ s ∈ strides step lo hi, s ≤ y ∧ y < s + step :=
  exists_mem_stridesFrom hstep hlo hhi (Int.self_le_toNat _)

/-- The pieces follow each other. -/
theorem strides_sorted {step : ℤ} (hstep : 0 < step) (lo hi : ℤ) :
    (strides step lo hi).Pairwise fun s t => s + step ≤ t := by
  have hfrom : ∀ (n : ℕ) (x : ℤ), (stridesFrom step hi n x).Pairwise fun s t => s + step ≤ t := by
    intro n
    induction n with
    | zero => exact fun _ => List.Pairwise.nil
    | succ n ih =>
      intro x
      rw [stridesFrom]
      split
      · exact List.pairwise_cons.mpr ⟨fun t ht => (mem_stridesFrom hstep ht).1.1, ih _⟩
      · exact List.Pairwise.nil
  exact hfrom _ _

/-! ## Moving the range -/

theorem stridesFrom_add {step hi d : ℤ} : ∀ {n : ℕ} {x : ℤ},
    stridesFrom step (hi + d) n (x + d) = (stridesFrom step hi n x).map (· + d)
  | 0, _ => rfl
  | n + 1, x => by
    rw [stridesFrom, stridesFrom]
    by_cases h : x < hi
    · rw [if_pos h, if_pos (by omega), List.map_cons, ← stridesFrom_add (n := n)]
      congr 2
      ring
    · rw [if_neg h, if_neg (by omega)]
      rfl

/-- The start points of a moved range are the moved start points. -/
theorem strides_add (step lo hi d : ℤ) :
    strides step (lo + d) (hi + d) = (strides step lo hi).map (· + d) := by
  rw [strides, strides, add_sub_add_right_eq_sub]
  exact stridesFrom_add

/-! ## Loops that break off -/

/-- Where the loop stops if its body breaks off at the first point that fails. -/
def strideStop (step lo hi : ℤ) (p : ℤ → Bool) : ℤ :=
  ((strides step lo hi).find? fun x => !p x).getD hi

/-- Where the loop `for (y = hi - 1; y >= lo; y--)` has come to, seen from above. -/
def strideStopDown (lo hi : ℤ) (p : ℤ → Bool) : ℤ :=
  (((strides 1 lo hi).reverse.find? fun y => !p y).map (· + 1)).getD lo

theorem strideStop_le {step lo hi : ℤ} (hstep : 0 < step) (h : lo ≤ hi) (p : ℤ → Bool) :
    lo ≤ strideStop step lo hi p ∧ strideStop step lo hi p ≤ hi := by
  unfold strideStop
  cases hfind : (strides step lo hi).find? fun x => !p x with
  | none => exact ⟨h, le_rfl⟩
  | some x =>
    obtain ⟨⟨hlo, hhi⟩, -⟩ := mem_strides hstep (List.mem_of_find?_eq_some hfind)
    exact ⟨hlo, hhi.le⟩

/-- All pieces before the stop have passed. -/
theorem of_lt_strideStop {step lo hi y : ℤ} (hstep : 0 < step) {p : ℤ → Bool} (hlo : lo ≤ y)
    (hy : y < strideStop step lo hi p) (hhi : lo ≤ hi) :
    ∃ s, lo ≤ s ∧ s ≤ y ∧ y < s + step ∧ s < hi ∧ p s = true := by
  have hstop := (strideStop_le hstep hhi p).2
  obtain ⟨s, hs, hsy, hys⟩ := exists_mem_strides hstep hlo (hy.trans_le hstop)
  have hrange := (mem_strides hstep hs).1
  refine ⟨s, hrange.1, hsy, hys, hrange.2, ?_⟩
  unfold strideStop at hy
  cases hfind : (strides step lo hi).find? fun x => !p x with
  | none => simpa using List.find?_eq_none.mp hfind s hs
  | some x =>
    rw [hfind] at hy
    obtain ⟨-, before, after, hlist, hpass⟩ := List.find?_eq_some_iff_append.mp hfind
    have hsorted := strides_sorted hstep lo hi
    rw [hlist] at hs hsorted
    rcases List.mem_append.mp hs with hs | hs
    · simpa using hpass s hs
    · have hx : x ≤ s := by
        rcases List.mem_cons.mp hs with rfl | hs
        · exact le_rfl
        · have := (List.pairwise_cons.mp (List.pairwise_append.mp hsorted).2.1).1 s hs
          omega
      have : y < x := hy
      omega

theorem strideStopDown_le {lo hi : ℤ} (h : lo ≤ hi) (p : ℤ → Bool) :
    lo ≤ strideStopDown lo hi p ∧ strideStopDown lo hi p ≤ hi := by
  unfold strideStopDown
  cases hfind : (strides 1 lo hi).reverse.find? fun y => !p y with
  | none => exact ⟨le_rfl, h⟩
  | some x =>
    obtain ⟨⟨hlo, hhi⟩, -⟩ :=
      mem_strides one_pos (List.mem_reverse.mp (List.mem_of_find?_eq_some hfind))
    exact ⟨hlo.trans (Int.lt_succ x).le, hhi⟩

theorem of_strideStopDown_le {lo hi y : ℤ} {p : ℤ → Bool}
    (hy : strideStopDown lo hi p ≤ y) (hhi : y < hi) (hlo : lo ≤ hi) : p y = true := by
  have hstop := (strideStopDown_le hlo p).1
  obtain ⟨s, hs, hsy, hys⟩ := exists_mem_strides one_pos (hstop.trans hy) hhi
  obtain rfl : s = y := by omega
  unfold strideStopDown at hy
  cases hfind : (strides 1 lo hi).reverse.find? fun y => !p y with
  | none => simpa using List.find?_eq_none.mp hfind s (List.mem_reverse.mpr hs)
  | some x =>
    rw [hfind] at hy
    obtain ⟨-, before, after, hlist, hpass⟩ := List.find?_eq_some_iff_append.mp hfind
    have hsorted := List.pairwise_reverse.mpr (strides_sorted one_pos lo hi)
    have hs := List.mem_reverse.mpr hs
    rw [hlist] at hs hsorted
    rcases List.mem_append.mp hs with hs | hs
    · simpa using hpass s hs
    · have hx : s ≤ x := by
        rcases List.mem_cons.mp hs with rfl | hs
        · exact le_rfl
        · have := (List.pairwise_cons.mp (List.pairwise_append.mp hsorted).2.1).1 s hs
          omega
      have : x + 1 ≤ s := hy
      omega

/-! ## Nested loops -/

/-- Numbers below a product, in groups of `d`. -/
theorem flatMap_range {α : Type*} (f : ℕ → α) (d : ℕ) : ∀ g : ℕ,
    ((List.range g).flatMap fun i => (List.range d).map fun j => f (i * d + j)) =
      (List.range (g * d)).map f
  | 0 => by rw [Nat.zero_mul, List.range_zero, List.flatMap_nil, List.map_nil]
  | g + 1 => by
    rw [List.range_succ, List.flatMap_append, flatMap_range f d g, List.flatMap_singleton,
      Nat.succ_mul, List.range_add, List.map_append, List.map_map]
    rfl

end KasmVNC.Lib
