import Mathlib.Algebra.BigOperators.Group.List.Basic
import Mathlib.Algebra.Ring.Hom.Defs
import Mathlib.Data.List.Induction
import Mathlib.Tactic.Ring

/-!
# Sums of sums

Two sums over a list: that of the values, which begins at one, and that of the first sum behind
each value. When the first value is taken away and another one is put behind the last, the sums
can be brought up to date without going over the list.
-/

namespace KasmVNC.Lib

section Sums

variable {R S : Type*} [CommSemiring R] [CommSemiring S]

/-- One more value. -/
def addValue (s : R × R) (x : R) : R × R := (s.1 + x, s.2 + (s.1 + x))

def sums (xs : List R) : R × R := xs.foldl addValue (1, 0)

/-- Every value as often as there are values from it on. -/
def weighted : List R → R
  | [] => 0
  | x :: xs => ((xs.length + 1 : ℕ) : R) * x + weighted xs

theorem foldl_addValue : ∀ (xs : List R) (s : R × R),
    xs.foldl addValue s = (s.1 + xs.sum, s.2 + (xs.length : R) * s.1 + weighted xs)
  | [], s => by simp [weighted]
  | x :: xs, s => by
    rw [List.foldl_cons, foldl_addValue xs]
    simp only [addValue, List.sum_cons, List.length_cons, weighted, Nat.cast_add, Nat.cast_one]
    refine Prod.ext ?_ ?_
    · ring
    · ring

theorem sums_eq (xs : List R) : sums xs = (1 + xs.sum, (xs.length : R) + weighted xs) := by
  rw [sums, foldl_addValue, zero_add, mul_one]

theorem sums_concat (xs : List R) (y : R) : sums (xs ++ [y]) = addValue (sums xs) y := by
  rw [sums, List.foldl_append]
  rfl

/-- Sums may be reduced at every step. -/
theorem sums_map (f : R →+* S) (xs : List R) :
    sums (xs.map f) = (f (sums xs).1, f (sums xs).2) := by
  induction xs using List.reverseRecOn with
  | nil => simp [sums]
  | append_singleton xs y ih =>
    rw [List.map_append, List.map_singleton, sums_concat, sums_concat, ih]
    simp [addValue]

end Sums

section Slide

variable {R : Type*} [CommRing R]

/-- **Sliding.** The first value leaves, and another one comes. -/
theorem sums_slide (x y : R) (xs : List R) :
    (sums (xs ++ [y])).1 = (sums (x :: xs)).1 + (y - x) ∧
      (sums (xs ++ [y])).2 =
        (sums (x :: xs)).2 - ((xs.length + 1 : ℕ) : R) * x + (sums (xs ++ [y])).1 - 1 := by
  rw [sums_concat, sums_eq xs, sums_eq (x :: xs)]
  simp only [addValue, List.sum_cons, List.length_cons, weighted, Nat.cast_add, Nat.cast_one]
  constructor
  · ring
  · ring

end Slide

end KasmVNC.Lib
