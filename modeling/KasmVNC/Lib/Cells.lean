import KasmVNC.Lib.Undefined
import Mathlib.Logic.Function.Basic

/-!
# Allocated arrays

An array is a function of the index together with the number of cells that are allocated for it.
Reading or writing behind them is undefined. What a new array holds, and what comes to lie in one
that grows, is whatever the memory held.
-/

namespace KasmVNC.Lib

universe u

structure Cells (α : Type u) where
  size : ℕ
  cell : ℕ → α

namespace Cells

variable {α : Type u} {a : Cells α} {i n : ℕ}

def load (a : Cells α) (i : ℕ) : Option α := if i < a.size then some (a.cell i) else none

def store (a : Cells α) (i : ℕ) (v : α) : Option (Cells α) :=
  if i < a.size then some { a with cell := Function.update a.cell i v } else none

/-- `realloc` -/
def resize (a : Cells α) (n : ℕ) : Cells α := { a with size := n }

/-- `memcpy` and `memset`, from the first cell on. -/
def fill (a : Cells α) (n : ℕ) (v : ℕ → α) : Option (Cells α) :=
  if n ≤ a.size then some { a with cell := fun i => if i < n then v i else a.cell i } else none

/-! ### Rules -/

variable {σ : Type u} {P : σ → Prop}

theorem returns_guard {σ : Type} {P : σ → Prop} {p : Prop} [Decidable p] {f : Unit → Option σ}
    (hp : p) (hf : Returns (f ()) P) : Returns ((guard p : Option Unit) >>= f) P := by
  rw [guard_true hp]
  exact hf

theorem returns_load {f : α → Option σ} (hi : i < a.size) (hf : Returns (f (a.cell i)) P) :
    Returns (a.load i >>= f) P := by
  rw [load, if_pos hi]
  exact hf

theorem returns_store {f : Cells α → Option σ} {v : α} (hi : i < a.size)
    (hf : Returns (f { a with cell := Function.update a.cell i v }) P) :
    Returns (a.store i v >>= f) P := by
  rw [store, if_pos hi]
  exact hf

theorem returns_fill {f : Cells α → Option σ} {v : ℕ → α} (hn : n ≤ a.size)
    (hf : Returns (f { a with cell := fun i => if i < n then v i else a.cell i }) P) :
    Returns (a.fill n v >>= f) P := by
  rw [fill, if_pos hn]
  exact hf

end Cells

end KasmVNC.Lib
