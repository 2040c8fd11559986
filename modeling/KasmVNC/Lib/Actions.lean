import Mathlib.Data.List.Basic

/-!
# Actions that are logged and may throw

An action changes a state and may throw. What it has changed before it throws stays changed,
so the exception comes with the state, and what an action keeps holds whether or not it
throws.

What actions do is written to a log that only grows. That something does not happen before
something else is a property of the log: what stands before each entry of one kind.
-/

namespace KasmVNC.Lib

/-! ## Exceptions -/

/-- The state an action leaves behind, with the exception if it throws one. -/
abbrev Throwing (σ ε : Type) := Except (σ × ε) σ

namespace Throwing

variable {σ ε : Type}

def andThen (r : Throwing σ ε) (f : σ → Throwing σ ε) : Throwing σ ε :=
  match r with
  | .ok s => f s
  | .error thrown => .error thrown

/-- `try` and `catch`, where the handler may throw again. -/
def catching (r : Throwing σ ε) (handler : σ → ε → Throwing σ ε) : Throwing σ ε :=
  match r with
  | .ok s => .ok s
  | .error (s, e) => handler s e

/-- The state that is left behind has the property. -/
def Leaves (r : Throwing σ ε) (P : σ → Prop) : Prop :=
  match r with
  | .ok s => P s
  | .error (s, _) => P s

variable {r : Throwing σ ε} {P : σ → Prop}

theorem Leaves.andThen {f : σ → Throwing σ ε} (hr : r.Leaves P)
    (hf : ∀ s, P s → (f s).Leaves P) : (r.andThen f).Leaves P := by
  cases r with
  | ok s => exact hf s hr
  | error thrown => exact hr

theorem Leaves.catching {handler : σ → ε → Throwing σ ε} (hr : r.Leaves P)
    (hf : ∀ s e, P s → (handler s e).Leaves P) : (r.catching handler).Leaves P := by
  cases r with
  | ok s => exact hr
  | error thrown => exact hf thrown.1 thrown.2 hr

end Throwing

/-! ## Logs -/

section Log

variable {α : Type*} {kind : α → Prop} {P : List α → Prop} {log : List α} {x : α}

/-- What stands before each entry of the kind has the property. -/
def Preceded (kind : α → Prop) (P : List α → Prop) (log : List α) : Prop :=
  ∀ before x after, log = before ++ x :: after → kind x → P before

theorem preceded_nil : Preceded kind P [] := by
  rintro before x after h
  exact absurd h.symm (List.append_ne_nil_of_right_ne_nil before (List.cons_ne_nil x after))

theorem Preceded.concat (h : Preceded kind P log) (hx : kind x → P log) :
    Preceded kind P (log ++ [x]) := by
  rintro before y after heq hy
  rcases List.eq_nil_or_concat after with rfl | ⟨after, z, rfl⟩
  · obtain ⟨rfl, hlast⟩ := List.append_inj' heq rfl
    cases hlast
    exact hx hy
  · rw [List.concat_eq_append, ← List.cons_append, ← List.append_assoc] at heq
    exact h before y after (List.append_inj' heq rfl).left hy

/-- What holds of a log holds of what was there before. -/
theorem Preceded.left {later : List α} (h : Preceded kind P (log ++ later)) :
    Preceded kind P log := by
  rintro before y after rfl hy
  exact h before y (after ++ later) (by rw [List.append_assoc, List.cons_append]) hy

end Log

end KasmVNC.Lib
