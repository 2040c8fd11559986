import Mathlib.Logic.Function.Basic
import Mathlib.Data.List.Basic

/-!
# The last values in a ring

A ring of `n` cells is written at a cursor that goes around. Counted back from the cursor, the
cells hold the last `n` values that have been written, and a default where there were fewer.
-/

namespace KasmVNC.Lib

universe u

variable {α : Type u}

/-- The cell that was written `j` turns before the last one. -/
def back (n cur j : ℕ) : ℕ := (cur + n - 1 - j) % n

/-- The ring holds the last of the values, the newest one first. -/
structure HoldsLast (ring : ℕ → α) (n cur : ℕ) (d : α) (values : List α) : Prop where
  cur_lt : cur < n
  cell : ∀ j < n, ring (back n cur j) = values.getD j d

variable {ring : ℕ → α} {n cur j : ℕ} {d v : α} {values : List α}

theorem back_lt (hn : 0 < n) : back n cur j < n := Nat.mod_lt _ hn

theorem back_eq (hcur : cur < n) (hj : j < n) :
    back n cur j = if j < cur then cur - 1 - j else cur + n - 1 - j := by
  unfold back
  split
  · rw [show cur + n - 1 - j = cur - 1 - j + n by omega, Nat.add_mod_right]
    exact Nat.mod_eq_of_lt (by omega)
  · exact Nat.mod_eq_of_lt (by omega)

theorem next_eq (hcur : cur < n) : (cur + 1) % n = if cur + 1 < n then cur + 1 else 0 := by
  split
  · exact Nat.mod_eq_of_lt (by omega)
  · rw [show cur + 1 = n by omega, Nat.mod_self]

/-- The last cell is the one at the cursor before it went on. -/
theorem back_next_zero (hcur : cur < n) : back n ((cur + 1) % n) 0 = cur := by
  rw [back_eq (Nat.mod_lt _ (by omega)) (by omega), next_eq hcur]
  split_ifs <;> omega

theorem back_next_succ (hcur : cur < n) (hj : j + 1 < n) :
    back n ((cur + 1) % n) (j + 1) = back n cur j := by
  rw [back_eq (Nat.mod_lt _ (by omega)) hj, back_eq hcur (by omega), next_eq hcur]
  split_ifs <;> omega

theorem back_ne (hcur : cur < n) (hj : j + 1 < n) : back n cur j ≠ cur := by
  rw [back_eq hcur (by omega)]
  split_ifs <;> omega

theorem back_back {i : ℕ} (hcur : cur < n) (hi : i < n) : back n cur (back n cur i) = i := by
  rw [back_eq hcur (back_lt (by omega)), back_eq hcur hi]
  split_ifs <;> omega

theorem HoldsLast.clear (hcur : cur < n) (hclear : ∀ i < n, ring i = d) :
    HoldsLast ring n cur d [] where
  cur_lt := hcur
  cell := fun j _ => hclear _ (back_lt (by omega))

/-- **Writing.** -/
theorem HoldsLast.write (h : HoldsLast ring n cur d values) :
    HoldsLast (Function.update ring cur v) n ((cur + 1) % n) d (v :: values) where
  cur_lt := Nat.mod_lt _ (Nat.zero_lt_of_lt h.cur_lt)
  cell := by
    intro j hj
    cases j with
    | zero => rw [back_next_zero h.cur_lt, Function.update_self, List.getD_cons_zero]
    | succ j =>
      rw [back_next_succ h.cur_lt hj, Function.update_of_ne (back_ne h.cur_lt hj),
        h.cell j (by omega), List.getD_cons_succ]

/-- What holds of the values and of the default holds of all cells. -/
theorem HoldsLast.all {P : α → Prop} (h : HoldsLast ring n cur d values) (hd : P d)
    (hvalues : ∀ v ∈ values, P v) {i : ℕ} (hi : i < n) : P (ring i) := by
  rw [← back_back h.cur_lt hi, h.cell _ (back_lt (by omega)), List.getD_eq_getElem?_getD]
  cases hv : values[back n cur i]? with
  | none => exact hd
  | some v => exact hvalues v (List.mem_of_getElem? hv)

end KasmVNC.Lib
