import Mathlib.Data.List.Basic
import Mathlib.Tactic.Common

/-!
# Writing over what has been written

A printer writes a word for each symbol, and goes on by a width that may be less than the length
of the word. The next word is then written over the end of this one. What comes out is the words
cut to their widths, and behind them whatever the last words have left there.
-/

namespace KasmVNC.Lib

variable {α β : Type*}

/-- The buffer, as far as it has been written, with a word written at `dst`. -/
def put (out : List β) (dst : ℕ) (word : List β) : List β :=
  out.take dst ++ (word ++ out.drop (dst + word.length))

theorem put_append (done rem word : List β) :
    put (done ++ rem) done.length word = done ++ (word ++ rem.drop word.length) := by
  rw [put, List.take_left, List.drop_append]
  simp

/-- A word, and how far the printer goes on. -/
structure Token (β : Type*) where
  word : List β
  width : ℕ
  width_le : width ≤ word.length

namespace Token

/-- What will be kept of the word. -/
def kept (t : Token β) : List β := t.word.take t.width

/-- What is left of it behind the place where the next word is written. -/
def left (t : Token β) : List β := t.word.drop t.width

theorem kept_append_left (t : Token β) : t.kept ++ t.left = t.word :=
  List.take_append_drop t.width t.word

theorem length_kept (t : Token β) : t.kept.length = t.width := by
  rw [kept, List.length_take, Nat.min_eq_left t.width_le]

end Token

variable (token : α → Token β)

/-- All words, from `dst` on. -/
def writeAll : List α → ℕ → List β → List β
  | [], _, out => out
  | a :: src, dst, out => writeAll src (dst + (token a).width) (put out dst (token a).word)

/-- What is kept of all words. -/
def printed (src : List α) : List β := src.flatMap fun a => (token a).kept

/-- What is behind them, if it was `rem` before the first of them. -/
def behind : List α → List β → List β
  | [], rem => rem
  | a :: src, rem => behind src ((token a).left ++ rem.drop (token a).word.length)

variable {token}

theorem printed_cons (a : α) (src : List α) :
    printed token (a :: src) = (token a).kept ++ printed token src := rfl

theorem writeAll_append (src : List α) (done rem : List β) :
    writeAll token src done.length (done ++ rem) =
      done ++ (printed token src ++ behind token src rem) := by
  induction src generalizing done rem with
  | nil => rfl
  | cons a src ih =>
    have hlength : done.length + (token a).width = (done ++ (token a).kept).length := by
      rw [List.length_append, Token.length_kept]
    rw [writeAll, put_append, hlength, ← (token a).kept_append_left, List.append_assoc,
      ← List.append_assoc, ih, (token a).kept_append_left, printed_cons, behind]
    simp only [List.append_assoc]

/-- The buffer after all words. -/
theorem writeAll_nil (src : List α) :
    writeAll token src 0 [] = printed token src ++ behind token src [] :=
  writeAll_append src [] []

theorem length_put_le {out word : List β} {dst limit : ℕ} (hdst : dst ≤ out.length) :
    (put out dst word).length ≤ limit ↔ out.length ≤ limit ∧ dst + word.length ≤ limit := by
  rw [put, List.length_append, List.length_append, List.length_take, List.length_drop]
  omega

theorem le_length_put {out : List β} {dst : ℕ} (t : Token β) (hdst : dst ≤ out.length) :
    dst + t.width ≤ (put out dst t.word).length := by
  have hle := t.width_le
  rw [put, List.length_append, List.length_append, List.length_take, List.length_drop]
  omega

/-- Nothing is written behind the limit if no word goes beyond it. -/
theorem length_writeAll_le {limit : ℕ} {src : List α} {dst : ℕ} {out : List β}
    (hdst : dst ≤ out.length) : (writeAll token src dst out).length ≤ limit ↔
      out.length ≤ limit ∧ ∀ before a more, src = before ++ a :: more →
        dst + (printed token before).length + (token a).word.length ≤ limit := by
  induction src generalizing dst out with
  | nil =>
    refine (and_iff_left fun before a more h => ?_).symm
    exact absurd h.symm (List.append_ne_nil_of_right_ne_nil before (List.cons_ne_nil a more))
  | cons b src ih =>
    rw [writeAll, ih (le_length_put (token b) hdst), length_put_le hdst, and_assoc]
    refine and_congr_right fun _ => ?_
    constructor
    · rintro ⟨hfirst, hrest⟩ before a more h
      cases before with
      | nil =>
        cases h
        exact hfirst
      | cons c before =>
        cases h
        have hle := hrest before a more rfl
        rw [printed_cons, List.length_append, Token.length_kept]
        omega
    · intro h
      refine ⟨h [] b src rfl, fun before a more hsrc => ?_⟩
      have hle := h (b :: before) a more (by rw [hsrc, List.cons_append])
      rw [printed_cons, List.length_append, Token.length_kept] at hle
      omega

/-! ## Codes that can be told apart -/

/-- What is kept of a word is not the beginning of what is kept of another one. -/
def PrefixFree (token : α → Token β) : Prop :=
  ∀ a b x y, (token a).kept ++ x = (token b).kept ++ y → (token a).kept = (token b).kept

/-- As many symbols are printed the same way only if each of them is. -/
theorem PrefixFree.printed_append (h : PrefixFree token) : ∀ {s t : List α} {x y : List β},
    s.length = t.length → printed token s ++ x = printed token t ++ y →
      (s.map fun a => (token a).kept) = (t.map fun a => (token a).kept) ∧ x = y
  | [], [], _, _, _, heq => ⟨rfl, heq⟩
  | a :: s, b :: t, x, y, hlength, heq => by
    rw [printed_cons, printed_cons, List.append_assoc, List.append_assoc] at heq
    have hfirst := h a b _ _ heq
    rw [hfirst] at heq
    obtain ⟨hrest, hxy⟩ := h.printed_append (Nat.succ.inj hlength) (List.append_cancel_left heq)
    exact ⟨by rw [List.map_cons, List.map_cons, hfirst, hrest], hxy⟩

/-- Single symbols, and a mark with as many symbols behind it each time. -/
theorem prefixFree_of_mark (mark : β) (width : ℕ)
    (h : ∀ a, (∃ b, (token a).kept = [b] ∧ b ≠ mark) ∨
      ∃ digits, (token a).kept = mark :: digits ∧ digits.length = width) : PrefixFree token := by
  intro a b x y heq
  rcases h a with ⟨c, hc, hcmark⟩ | ⟨digits, hdigits, hlength⟩ <;>
    rcases h b with ⟨d, hd, hdmark⟩ | ⟨digits', hdigits', hlength'⟩
  · rw [hc, hd] at heq ⊢
    rw [(List.cons.inj heq).1]
  · rw [hc, hdigits'] at heq
    exact absurd (List.cons.inj heq).1 hcmark
  · rw [hdigits, hd] at heq
    exact absurd (List.cons.inj heq).1.symm hdmark
  · rw [hdigits, hdigits'] at heq ⊢
    rw [(List.append_inj (List.cons.inj heq).2 (hlength.trans hlength'.symm)).1]

/-- The words of two strings, one behind the other. -/
theorem behind_append (s t : List α) (rem : List β) :
    behind token (s ++ t) rem = behind token t (behind token s rem) := by
  induction s generalizing rem with
  | nil => rfl
  | cons a s ih => exact ih _

theorem printed_append (s t : List α) :
    printed token (s ++ t) = printed token s ++ printed token t := List.flatMap_append

end KasmVNC.Lib
