import KasmVNC.Lib.Text

/-!
# Strings in JSON

`JSON_escape` writes a backslash and a letter for the characters that have one. The case of a form
feed falls through to the one of a newline, and the control characters without a letter are
written as they are.
-/

namespace KasmVNC.Network

open KasmVNC.Lib

abbrev quote : Byte := 0x22

abbrev backslash : Byte := 0x5C

/-! ## Both functions -/

/-- The cases of the `switch`. The one for `'\f'` has no `break`. -/
def escapeChar (b : Byte) : List Byte :=
  if b = 0x08 then [backslash, 0x62]
  else if b = 0x0C then [backslash, 0x66, backslash, 0x6E]
  else if b = 0x0A then [backslash, 0x6E]
  else if b = 0x0D then [backslash, 0x72]
  else if b = 0x09 then [backslash, 0x74]
  else if b = quote then [backslash, quote]
  else if b = backslash then [backslash, backslash]
  else [b]

/-- What is in `out`, without the zero. -/
def JSON_escape (s : List Byte) : List Byte := s.flatMap escapeChar

/-- What a letter behind a backslash stands for. -/
def unescapeChar (b : Byte) : Option Byte :=
  if b = 0x62 then some 0x08
  else if b = 0x66 then some 0x0C
  else if b = 0x6E then some 0x0A
  else if b = 0x72 then some 0x0D
  else if b = 0x74 then some 0x09
  else if b = quote then some quote
  else if b = backslash then some backslash
  else none

/-- A backslash with anything else behind it is kept. -/
def JSON_unescape : List Byte → List Byte
  | [] => []
  | [b] => [b]
  | b :: c :: s =>
    match if b = backslash then unescapeChar c else none with
    | some d => d :: JSON_unescape s
    | none => b :: JSON_unescape (c :: s)

/-! ## Escaped text -/

abbrev control (b : Byte) : Prop := b < 0x20

/-- Quotes, backslashes and control characters have a backslash before them. -/
def Escaped : List Byte → Prop
  | [] => True
  | [b] => b ≠ backslash ∧ b ≠ quote ∧ ¬control b
  | b :: c :: s =>
    if b = backslash then Escaped s else (b ≠ quote ∧ ¬control b) ∧ Escaped (c :: s)

instance decidableEscaped : ∀ s, Decidable (Escaped s)
  | [] => inferInstanceAs (Decidable True)
  | [_] => inferInstanceAs (Decidable (_ ∧ _))
  | b :: c :: s =>
    have := decidableEscaped s
    have := decidableEscaped (c :: s)
    inferInstanceAs (Decidable (if b = backslash then _ else _))

/-- The control characters that are written with their letter alone. -/
def Lettered (b : Byte) : Prop := b = 0x08 ∨ b = 0x0A ∨ b = 0x0D ∨ b = 0x09

instance (b : Byte) : Decidable (Lettered b) := inferInstanceAs (Decidable (_ ∨ _))

/-- A form feed comes back with a newline behind it, and everything else as it is. -/
def reread (b : Byte) : List Byte := if b = 0x0C then [0x0C, 0x0A] else [b]

/-! ## One character -/

section Characters

variable {b c d : Byte} {s : List Byte}

theorem unescape_plain (hb : b ≠ backslash) (s : List Byte) :
    JSON_unescape (b :: s) = b :: JSON_unescape s := by
  cases s with
  | nil => rfl
  | cons c s => rw [JSON_unescape, if_neg hb]

theorem unescape_pair (h : unescapeChar c = some d) (s : List Byte) :
    JSON_unescape (backslash :: c :: s) = d :: JSON_unescape s := by
  rw [JSON_unescape, if_pos rfl, h]

theorem escaped_plain (hb : b ≠ backslash) (s : List Byte) :
    Escaped (b :: s) ↔ (b ≠ quote ∧ ¬control b) ∧ Escaped s := by
  cases s with
  | nil =>
    rw [Escaped, Escaped, and_true]
    exact and_iff_right hb
  | cons c s =>
    rw [Escaped]
    exact iff_of_eq (if_neg hb)

theorem escaped_pair (c : Byte) (s : List Byte) : Escaped (backslash :: c :: s) ↔ Escaped s := by
  rw [Escaped]
  exact iff_of_eq (if_pos rfl)

/-- The letters. -/
def letters : List Byte := [0x62, 0x66, 0x6E, 0x72, 0x74, quote, backslash]

/-- A character is written with its letter, as a form feed, or as it is. -/
theorem escapeChar_cases (b : Byte) :
    (b ≠ 0x0C ∧ (control b → Lettered b) ∧
      ∃ c ∈ letters, escapeChar b = [backslash, c] ∧ unescapeChar c = some b) ∨
    (b = 0x0C ∧ escapeChar b = [backslash, 0x66, backslash, 0x6E]) ∨
    (b ≠ 0x0C ∧ escapeChar b = [b] ∧ b ≠ backslash ∧ b ≠ quote ∧ ¬Lettered b) := by
  by_cases hb : b = 0x0C
  · exact Or.inr (Or.inl ⟨hb, hb ▸ by decide⟩)
  by_cases hspecial : b = 0x08 ∨ b = 0x0A ∨ b = 0x0D ∨ b = 0x09 ∨ b = quote ∨ b = backslash
  · left
    rcases hspecial with rfl | rfl | rfl | rfl | rfl | rfl
    · exact ⟨by decide, by decide, 0x62, by decide, by decide, by decide⟩
    · exact ⟨by decide, by decide, 0x6E, by decide, by decide, by decide⟩
    · exact ⟨by decide, by decide, 0x72, by decide, by decide, by decide⟩
    · exact ⟨by decide, by decide, 0x74, by decide, by decide, by decide⟩
    · exact ⟨by decide, by decide, quote, by decide, by decide, by decide⟩
    · exact ⟨by decide, by decide, backslash, by decide, by decide, by decide⟩
  · simp only [not_or] at hspecial
    obtain ⟨h08, h0A, h0D, h09, hquote, hbackslash⟩ := hspecial
    refine Or.inr (Or.inr ⟨hb, ?_, hbackslash, hquote, ?_⟩)
    · rw [escapeChar, if_neg h08, if_neg hb, if_neg h0A, if_neg h0D, if_neg h09, if_neg hquote,
        if_neg hbackslash]
    · rintro (h | h | h | h)
      · exact h08 h
      · exact h0A h
      · exact h0D h
      · exact h09 h

theorem unescape_escapeChar (b : Byte) (s : List Byte) :
    JSON_unescape (escapeChar b ++ s) = reread b ++ JSON_unescape s := by
  rcases escapeChar_cases b with ⟨hb, -, c, -, hc, hletter⟩ | ⟨rfl, hb⟩ | ⟨hb, hplain, hne, -⟩
  · rw [hc, reread, if_neg hb]
    exact unescape_pair hletter s
  · have hfirst : unescapeChar 0x66 = some 0x0C := by decide
    have hsecond : unescapeChar 0x6E = some 0x0A := by decide
    rw [hb]
    exact (unescape_pair hfirst _).trans (congrArg _ (unescape_pair hsecond s))
  · rw [hplain, reread, if_neg hb]
    exact unescape_plain hne s

theorem escaped_escapeChar (b : Byte) (s : List Byte) :
    Escaped (escapeChar b ++ s) ↔ (control b → b = 0x0C ∨ Lettered b) ∧ Escaped s := by
  rcases escapeChar_cases b with ⟨-, hlettered, c, -, hc, -⟩ | ⟨rfl, hb⟩ |
    ⟨hb, hplain, hne, hquote, hlettered⟩
  · rw [hc]
    exact (escaped_pair c s).trans
      (and_iff_right fun hcontrol => Or.inr (hlettered hcontrol)).symm
  · rw [hb]
    exact (escaped_pair _ _).trans ((escaped_pair _ s).trans
      (and_iff_right fun _ => Or.inl rfl).symm)
  · rw [hplain, List.singleton_append, escaped_plain hne]
    refine and_congr_left fun _ => ?_
    constructor
    · rintro ⟨-, hnot⟩ hcontrol
      exact absurd hcontrol hnot
    · intro h
      exact ⟨hquote, fun hcontrol => (h hcontrol).elim hb hlettered⟩

theorem length_escapeChar (hb : b ≠ 0x0C) : (escapeChar b).length ≤ 2 := by
  rcases escapeChar_cases b with ⟨-, -, c, -, hc, -⟩ | ⟨heq, -⟩ | ⟨-, hplain, -⟩
  · rw [hc]
    exact Nat.le_refl 2
  · exact absurd heq hb
  · rw [hplain]
    exact Nat.le_succ 1

end Characters

/-! ## Whole strings -/

theorem unescape_escape (s : List Byte) : JSON_unescape (JSON_escape s) = s.flatMap reread := by
  induction s with
  | nil => rfl
  | cons b s ih =>
    rw [JSON_escape, List.flatMap_cons, unescape_escapeChar, List.flatMap_cons, ← ih, JSON_escape]

theorem length_le_reread (s : List Byte) : s.length ≤ (s.flatMap reread).length := by
  induction s with
  | nil => exact Nat.le_refl 0
  | cons b s ih =>
    have hpos : 1 ≤ (reread b).length := by
      rw [reread]
      split
      · exact Nat.le_succ 1
      · exact Nat.le_refl 1
    rw [List.flatMap_cons, List.length_append, List.length_cons]
    omega

/-- A string comes back if there is no form feed in it. -/
theorem reread_iff {s : List Byte} : s.flatMap reread = s ↔ 0x0C ∉ s := by
  induction s with
  | nil => exact iff_of_true rfl List.not_mem_nil
  | cons b s ih =>
    rw [List.flatMap_cons, reread, List.mem_cons, not_or, ← ih]
    split
    · next hb =>
        refine iff_of_false (fun h => ?_) fun h => h.1 hb.symm
        have hle := length_le_reread s
        have heq := congrArg List.length h
        rw [List.length_append, List.length_cons, List.length_cons, List.length_cons,
          List.length_nil] at heq
        omega
    · next hb =>
        rw [List.singleton_append, List.cons.injEq, and_iff_right rfl]
        exact (and_iff_right (Ne.symm hb)).symm

theorem escaped_escape_iff {s : List Byte} :
    Escaped (JSON_escape s) ↔ ∀ b ∈ s, control b → b = 0x0C ∨ Lettered b := by
  induction s with
  | nil => exact iff_of_true trivial nofun
  | cons b s ih =>
    rw [JSON_escape] at ih
    rw [JSON_escape, List.flatMap_cons, escaped_escapeChar, ih, List.forall_mem_cons]

theorem length_escape {s : List Byte} (h : 0x0C ∉ s) : (JSON_escape s).length ≤ 2 * s.length := by
  induction s with
  | nil => exact Nat.le_refl 0
  | cons b s ih =>
    rw [List.mem_cons, not_or] at h
    have hb := length_escapeChar (Ne.symm h.1)
    have hrest := ih h.2
    rw [JSON_escape] at hrest ⊢
    rw [List.flatMap_cons, List.length_append, List.length_cons]
    omega

/-- **Escaping.** A string comes back, from text that is escaped and at most twice as long,
exactly if its control characters are those that are written with their letter alone. -/
theorem json_escape_iff (s : CString) :
    (JSON_unescape (JSON_escape s.bytes) = s.bytes ∧ Escaped (JSON_escape s.bytes) ∧
      (JSON_escape s.bytes).length ≤ 2 * s.bytes.length) ↔
        ∀ b ∈ s.bytes, control b → Lettered b := by
  rw [unescape_escape, reread_iff, escaped_escape_iff]
  constructor
  · rintro ⟨hff, hescaped, -⟩ b hb hcontrol
    exact (hescaped b hb hcontrol).resolve_left fun heq => hff (heq ▸ hb)
  · intro h
    have hff : 0x0C ∉ s.bytes := fun hmem => absurd (h _ hmem (by decide)) (by decide)
    exact ⟨hff, fun b hb hcontrol => Or.inr (h b hb hcontrol), length_escape hff⟩

/-- A form feed is written as a newline too, and the first control character as it is. -/
theorem json_escape_form_feed :
    JSON_escape [0x0C] = ascii "\\f\\n" ∧ JSON_unescape (JSON_escape [0x0C]) = [0x0C, 0x0A] ∧
      ¬Escaped (JSON_escape [0x01]) := by
  decide

end KasmVNC.Network
