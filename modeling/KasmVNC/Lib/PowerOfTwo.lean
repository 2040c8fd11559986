import Mathlib.Data.Nat.Bitwise
import Mathlib.Data.Nat.Log
import Mathlib.Tactic.Ring

/-!
# The next power of two

Or-ing a number with its own shifts by 1, 2, 4, ... copies each bit to all lower
places: after `k` rounds to the `2 ^ k` places below it. If that covers the whole
number, one more is the next power of two. Rows of a table that are padded to such
a length are addressed with a shift and a mask.
-/

namespace KasmVNC.Lib

/-- The bits of `m` are those of `n`, each copied to the `s` places from its own
downwards. -/
def Smears (s n m : ℕ) : Prop :=
  ∀ i, m.testBit i = true ↔ ∃ j, (i ≤ j ∧ j < i + s) ∧ n.testBit j = true

theorem smears_one (n : ℕ) : Smears 1 n n := by
  intro i
  constructor
  · exact fun h => ⟨i, ⟨le_rfl, Nat.lt_succ_self i⟩, h⟩
  · rintro ⟨j, ⟨hij, hji⟩, h⟩
    obtain rfl : i = j := by omega
    exact h

/-- Each round doubles the number of places. -/
theorem Smears.double {s n m : ℕ} (h : Smears s n m) : Smears (s + s) n (m ||| m >>> s) := by
  intro i
  rw [Nat.testBit_or, Nat.testBit_shiftRight, Bool.or_eq_true, h i, h (s + i)]
  constructor
  · rintro (⟨j, ⟨hij, hji⟩, hj⟩ | ⟨j, ⟨hij, hji⟩, hj⟩)
    · exact ⟨j, ⟨hij, by omega⟩, hj⟩
    · exact ⟨j, ⟨by omega, by omega⟩, hj⟩
  · rintro ⟨j, ⟨hij, hji⟩, hj⟩
    by_cases hnear : j < i + s
    · exact Or.inl ⟨j, ⟨hij, hnear⟩, hj⟩
    · exact Or.inr ⟨j, ⟨by omega, by omega⟩, hj⟩

/-- All places up to the highest bit are filled. -/
theorem Smears.succ_eq_two_pow {s n m : ℕ} (h : Smears s n m) (hzero : n ≠ 0)
    (hn : n < 2 ^ s) : m + 1 = 2 ^ (n.log2 + 1) := by
  have hlog : n.log2 < s := (Nat.log2_lt hzero).mpr hn
  have hm : m = 2 ^ (n.log2 + 1) - 1 := by
    refine Nat.eq_of_testBit_eq fun i => Bool.eq_iff_iff.mpr ?_
    rw [h i, Nat.testBit_two_pow_sub_one, decide_eq_true_iff]
    constructor
    · rintro ⟨j, ⟨hij, -⟩, hj⟩
      by_contra hi
      have hlarge : n < 2 ^ j := (Nat.log2_lt hzero).mp (by omega)
      rw [Nat.testBit_lt_two_pow hlarge] at hj
      cases hj
    · exact fun hi => ⟨n.log2, ⟨by omega, by omega⟩, Nat.testBit_log2 hzero⟩
  have hpos : 0 < 2 ^ (n.log2 + 1) := Nat.two_pow_pos _
  omega

/-! ## Padded rows -/

section Rows

variable {k row column : ℕ}

theorem rowIndex_row (h : column < 2 ^ k) : ((row <<< k) + column) >>> k = row := by
  rw [Nat.shiftLeft_eq, Nat.shiftRight_eq_div_pow, Nat.mul_comm,
    Nat.mul_add_div (Nat.two_pow_pos k), Nat.div_eq_of_lt h, Nat.add_zero]

theorem rowIndex_column (h : column < 2 ^ k) :
    ((row <<< k) + column) &&& (2 ^ k - 1) = column := by
  rw [Nat.and_two_pow_sub_one_eq_mod, Nat.shiftLeft_eq, Nat.mul_comm, Nat.mul_add_mod,
    Nat.mod_eq_of_lt h]

theorem rowIndex_add (row column down k : ℕ) :
    (row <<< k) + column + (down <<< k) = ((row + down) <<< k) + column := by
  simp only [Nat.shiftLeft_eq]
  ring

end Rows

end KasmVNC.Lib
