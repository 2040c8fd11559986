import Mathlib.Data.List.Basic
import Mathlib.Tactic.Common

/-!
# Texts and ends of lines

A text is a list of characters and ends of lines, whatever the latter look like. Where it is
written down, a line may end in one of two symbols, or in both of them. Writing the text with a
single ending for all of its lines, and reading that, does not change it.
-/

namespace KasmVNC.Lib

variable {α : Type*} {cr lf : α}

/-- A text with the same ending for every line. `none` stands for the end of a line. -/
def printLines (ending : List α) (text : List (Option α)) : List α :=
  text.flatMap fun c => c.elim ending fun b => [b]

section Print

variable {ending : List α} {text : List (Option α)}

@[simp] theorem printLines_end :
    printLines ending (none :: text) = ending ++ printLines ending text := rfl

@[simp] theorem printLines_char (b : α) :
    printLines ending (some b :: text) = b :: printLines ending text := rfl

theorem mem_printLines {b : α} (h : b ∈ printLines ending text) : b ∈ ending ∨ some b ∈ text := by
  obtain ⟨c, hc, hb⟩ := List.mem_flatMap.mp h
  cases c with
  | none => exact Or.inl hb
  | some d =>
    rw [Option.elim_some, List.mem_singleton] at hb
    exact Or.inr (hb ▸ hc)

end Print

/-- No character of the text is one of the two symbols. -/
def Plain (cr lf : α) (text : List (Option α)) : Prop := ∀ b, some b ∈ text → b ≠ cr ∧ b ≠ lf

theorem Plain.tail {c : Option α} {text : List (Option α)} (h : Plain cr lf (c :: text)) :
    Plain cr lf text :=
  fun b hb => h b (List.mem_cons_of_mem c hb)

/-! ## Symbols that stand together -/

structure Paired (cr lf : α) (s : List α) : Prop where
  followed : ∀ i, s[i]? = some cr → s[i + 1]? = some lf
  preceded : ∀ i, s[i]? = some lf → ∃ j, i = j + 1 ∧ s[j]? = some cr

theorem Paired.char {b : α} {s : List α} (hs : Paired cr lf s) (hcr : b ≠ cr) (hlf : b ≠ lf) :
    Paired cr lf (b :: s) := by
  constructor
  · intro i hi
    cases i with
    | zero => exact absurd (Option.some.inj hi) hcr
    | succ i => exact hs.followed i hi
  · intro i hi
    cases i with
    | zero => exact absurd (Option.some.inj hi) hlf
    | succ i =>
      obtain ⟨j, rfl, hj⟩ := hs.preceded i hi
      exact ⟨j + 1, rfl, hj⟩

theorem Paired.line {s : List α} (hs : Paired cr lf s) (h : cr ≠ lf) :
    Paired cr lf (cr :: lf :: s) := by
  constructor
  · intro i hi
    match i with
    | 0 => rfl
    | 1 => exact absurd (Option.some.inj hi).symm h
    | i + 2 => exact hs.followed i hi
  · intro i hi
    match i with
    | 0 => exact absurd (Option.some.inj hi) h
    | 1 => exact ⟨0, rfl, rfl⟩
    | i + 2 =>
      obtain ⟨j, rfl, hj⟩ := hs.preceded i hi
      exact ⟨j + 2, rfl, hj⟩

theorem paired_print (h : cr ≠ lf) : ∀ {text : List (Option α)}, Plain cr lf text →
    Paired cr lf (printLines [cr, lf] text)
  | [], _ => by
    constructor
    · intro i hi
      cases hi
    · intro i hi
      cases hi
  | none :: _, hplain => (paired_print h hplain.tail).line h
  | some b :: _, hplain => by
    obtain ⟨hcr, hlf⟩ := hplain b List.mem_cons_self
    exact (paired_print h hplain.tail).char hcr hlf

/-! ## Reading -/

variable [DecidableEq α]

/-- What is written down does not go on with `lf`. -/
def NotBefore (lf : α) (rest : List α) : Prop := rest.head? ≠ some lf

instance (lf : α) (rest : List α) : Decidable (NotBefore lf rest) :=
  inferInstanceAs (Decidable (_ ≠ _))

/-- The text that is written down. -/
def linesOf (cr lf : α) : List α → List (Option α)
  | [] => []
  | b :: rest =>
    if b = cr then
      if NotBefore lf rest then none :: linesOf cr lf rest else linesOf cr lf rest
    else if b = lf then none :: linesOf cr lf rest
    else some b :: linesOf cr lf rest

theorem mem_linesOf_cons {b c : α} {rest : List α} (h : some b ∈ linesOf cr lf (c :: rest)) :
    (b = c ∧ c ≠ cr ∧ c ≠ lf) ∨ some b ∈ linesOf cr lf rest := by
  rw [linesOf] at h
  split_ifs at h with hcr hlf hlf
  · exact Or.inr (by simpa using h)
  · exact Or.inr h
  · exact Or.inr (by simpa using h)
  · rcases List.mem_cons.mp h with heq | hrest
    · exact Or.inl ⟨Option.some.inj heq, hcr, hlf⟩
    · exact Or.inr hrest

/-- The characters of a text are those of what is written, without the two symbols. -/
theorem of_mem_linesOf {b : α} : ∀ {s : List α}, some b ∈ linesOf cr lf s →
    b ∈ s ∧ b ≠ cr ∧ b ≠ lf
  | [], h => by cases h
  | c :: rest, h => by
    rcases mem_linesOf_cons h with ⟨rfl, hne⟩ | hrest
    · exact ⟨List.mem_cons_self, hne⟩
    · obtain ⟨hmem, hne⟩ := of_mem_linesOf hrest
      exact ⟨List.mem_cons_of_mem c hmem, hne⟩

theorem plain_linesOf (s : List α) : Plain cr lf (linesOf cr lf s) :=
  fun _ hb => (of_mem_linesOf hb).2

/-- Lines that end in `lf`. -/
theorem linesOf_print_lf (h : cr ≠ lf) : ∀ {text : List (Option α)}, Plain cr lf text →
    linesOf cr lf (printLines [lf] text) = text
  | [], _ => rfl
  | none :: text, hplain => by
    have ih := linesOf_print_lf h hplain.tail
    simp [linesOf, Ne.symm h, ih]
  | some b :: text, hplain => by
    obtain ⟨hcr, hlf⟩ := hplain b List.mem_cons_self
    have ih := linesOf_print_lf h hplain.tail
    simp [linesOf, hcr, hlf, ih]

/-- Lines that end in both symbols. -/
theorem linesOf_print_crlf (h : cr ≠ lf) : ∀ {text : List (Option α)}, Plain cr lf text →
    linesOf cr lf (printLines [cr, lf] text) = text
  | [], _ => rfl
  | none :: text, hplain => by
    have ih := linesOf_print_crlf h hplain.tail
    simp [linesOf, NotBefore, Ne.symm h, ih]
  | some b :: text, hplain => by
    obtain ⟨hcr, hlf⟩ := hplain b List.mem_cons_self
    have ih := linesOf_print_crlf h hplain.tail
    simp [linesOf, hcr, hlf, ih]

end KasmVNC.Lib
