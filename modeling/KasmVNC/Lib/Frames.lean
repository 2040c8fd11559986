import Mathlib.Data.List.Basic
import Mathlib.Data.List.Flatten

/-!
# Frames in a stream

Frames are sent one after the other, and the stream arrives in pieces that know nothing
of frames. What a receiver can have of the first `n` elements of a stream are the frames
that lie in them as a whole.
-/

namespace KasmVNC.Lib

variable {F α : Type*} (encode : F → List α)

/-- The frames that lie in the first `n` elements as a whole. -/
def wholeFrames : ℕ → List F → List F
  | _, [] => []
  | n, f :: fs =>
    if (encode f).length ≤ n then f :: wholeFrames (n - (encode f).length) fs else []

/-- The next frame needs more than `n` elements. -/
def Incomplete (n : ℕ) (fs : List F) : Prop := ∀ f ∈ fs.head?, n < (encode f).length

variable {encode}

theorem wholeFrames_of_incomplete {n : ℕ} {fs : List F} (h : Incomplete encode n fs) :
    wholeFrames encode n fs = [] := by
  cases fs with
  | nil => rfl
  | cons f fs =>
    have hlt : n < (encode f).length := h f rfl
    rw [wholeFrames, if_neg (Nat.not_le.mpr hlt)]

/-- Behind some frames, and `n` elements of the next one. -/
theorem wholeFrames_append {n : ℕ} {rest : List F} (h : Incomplete encode n rest) :
    ∀ done : List F,
      wholeFrames encode ((done.flatMap encode).length + n) (done ++ rest) = done
  | [] => by
    rw [List.flatMap_nil, List.length_nil, Nat.zero_add, List.nil_append]
    exact wholeFrames_of_incomplete h
  | f :: done => by
    rw [List.cons_append, wholeFrames, List.flatMap_cons, List.length_append,
      if_pos (by omega), Nat.add_assoc, Nat.add_sub_cancel_left, wholeFrames_append h done]

end KasmVNC.Lib
