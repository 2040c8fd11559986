import KasmVNC.Lib.Lines
import KasmVNC.Lib.Text

/-!
# Line endings

The lines of a clipboard end in CR, in LF or in both. `convertLF` and `convertCRLF` make all
of them end alike. Each goes through the string twice: the first pass counts the bytes of the
result, and the second one writes them into a buffer of zeros of that size.

Both of them read a text and write it with an ending of their own.
-/

namespace KasmVNC.Rfb

open KasmVNC.Lib

def CR : Byte := 0x0D

def LF : Byte := 0x0A

theorem cr_ne_lf : CR ≠ LF := by decide

theorem lf_ne_nul : LF ≠ 0 := by decide

/-- The buffer after the second pass: what it has written, and the zeros of `memset`. -/
def converted (sz : ℕ) (out : List Byte) : CString :=
  CString.ofBuffer (out ++ List.replicate (sz - out.length) 0)

/-! ## `convertLF` -/

/-- The first pass adds this to `sz`. -/
def sizeLF : List Byte → ℕ
  | [] => 0
  | b :: rest =>
    if b = 0 then 0
    else if b ≠ CR then 1 + sizeLF rest
    -- `(in_len < 2) || (*(in+1) != '\n')`
    else (if NotBefore LF rest then 1 else 0) + sizeLF rest

/-- What the second pass writes. -/
def writeLF : List Byte → List Byte
  | [] => []
  | b :: rest =>
    if b = 0 then []
    else if b ≠ CR then b :: writeLF rest
    else (if NotBefore LF rest then [LF] else []) ++ writeLF rest

def convertLF (src : List Byte) : CString := converted (1 + sizeLF src) (writeLF src)

/-! ## `convertCRLF` -/

/-- `(in == src) || (*(in-1) != '\r')`. There is no byte before the first one. -/
def NotBehind (before : Option Byte) : Prop := before ≠ some CR

instance (before : Option Byte) : Decidable (NotBehind before) :=
  inferInstanceAs (Decidable (_ ≠ _))

def sizeCRLF : Option Byte → List Byte → ℕ
  | _, [] => 0
  | before, b :: rest =>
    if b = 0 then 0
    else
      1 + (if b = CR then if NotBefore LF rest then 1 else 0
        else if b = LF then if NotBehind before then 1 else 0
        else 0) + sizeCRLF (some b) rest

def writeCRLF : Option Byte → List Byte → List Byte
  | _, [] => []
  | before, b :: rest =>
    if b = 0 then []
    else
      (if b = LF then if NotBehind before then [CR] else [] else []) ++
        b :: ((if b = CR then if NotBefore LF rest then [LF] else [] else []) ++
          writeCRLF (some b) rest)

def convertCRLF (src : List Byte) : CString :=
  converted (1 + sizeCRLF none src) (writeCRLF none src)

/-! ## The two passes -/

theorem length_writeLF : ∀ src : List Byte, (writeLF src).length = sizeLF src
  | [] => rfl
  | b :: rest => by
    have ih := length_writeLF rest
    simp only [writeLF, sizeLF]
    split_ifs <;> simp [ih, Nat.add_comm]

theorem length_writeCRLF : ∀ (before : Option Byte) (src : List Byte),
    (writeCRLF before src).length = sizeCRLF before src
  | _, [] => rfl
  | before, b :: rest => by
    have ih := length_writeCRLF (some b) rest
    have hne : b = LF → b ≠ CR := fun hlf hcr => cr_ne_lf (hcr.symm.trans hlf)
    simp only [writeCRLF, sizeCRLF]
    by_cases hlf : b = LF
    · rw [if_pos hlf, if_neg (hne hlf), if_neg (hne hlf), if_pos hlf]
      split_ifs <;> simp [ih] <;> omega
    · rw [if_neg hlf, if_neg hlf]
      split_ifs <;> simp [ih] <;> omega

/-- A result that has no zero in it is the string in the buffer. -/
theorem bytes_converted {sz : ℕ} {out : List Byte} (hsz : sz = 1 + out.length) (h : 0 ∉ out) :
    (converted sz out).bytes = out := by
  have hzeros : List.replicate (sz - out.length) (0 : Byte) = 0 :: [] := by
    rw [hsz, Nat.add_sub_cancel]
    rfl
  rw [converted, hzeros]
  exact congrArg CString.bytes (CString.ofBuffer_append ⟨out, h⟩ [])

/-! ## The text that is written -/

abbrev textOf (src : List Byte) : List (Option Byte) := linesOf CR LF (CString.ofBuffer src).bytes

theorem notBefore_ofBuffer (rest : List Byte) :
    NotBefore LF (CString.ofBuffer rest).bytes ↔ NotBefore LF rest := by
  cases rest with
  | nil => rfl
  | cons c rest =>
    by_cases hc : c = 0
    · subst hc
      rw [CString.bytes_ofBuffer_zero]
      exact iff_of_true nofun fun h => lf_ne_nul (Option.some.inj h).symm
    · rw [CString.bytes_ofBuffer_cons hc]
      rfl

theorem writeLF_eq : ∀ src : List Byte, writeLF src = printLines [LF] (textOf src)
  | [] => rfl
  | b :: rest => by
    have ih := writeLF_eq rest
    by_cases hb : b = 0
    · rw [writeLF, if_pos hb, hb, textOf, CString.bytes_ofBuffer_zero]
      rfl
    · rw [writeLF, if_neg hb, textOf, CString.bytes_ofBuffer_cons hb, linesOf, ih]
      simp only [notBefore_ofBuffer]
      by_cases hcr : b = CR
      · rw [if_neg (not_not.mpr hcr), if_pos hcr]
        split_ifs <;> rfl
      · rw [if_pos hcr, if_neg hcr]
        split_ifs with hlf
        · rw [hlf]
          rfl
        · rfl

/-- The byte in front of a line feed that has not been written yet, or nothing. -/
def owed (before : Option Byte) (src : List Byte) : List Byte :=
  if NotBefore LF src ∨ NotBehind before then [] else [CR]

theorem owed_of_notBehind {before : Option Byte} (h : NotBehind before) (src : List Byte) :
    owed before src = [] := if_pos (Or.inr h)

theorem owed_of_notBefore {src : List Byte} (h : NotBefore LF src) (before : Option Byte) :
    owed before src = [] := if_pos (Or.inl h)

theorem owed_behind_CR {src : List Byte} (h : ¬NotBefore LF src) : owed (some CR) src = [CR] :=
  if_neg (not_or.mpr ⟨h, not_not.mpr rfl⟩)

theorem notBehind_some {b : Byte} (h : b ≠ CR) : NotBehind (some b) :=
  fun heq => h (Option.some.inj heq)

theorem notBefore_cons {b : Byte} (h : b ≠ LF) (rest : List Byte) : NotBefore LF (b :: rest) :=
  fun heq => h (Option.some.inj heq)

/-- With what has been written of the line's end before, the second pass writes the text. -/
theorem owed_writeCRLF : ∀ (before : Option Byte) (src : List Byte),
    owed before src ++ writeCRLF before src = printLines [CR, LF] (textOf src)
  | before, [] => by
    rw [owed_of_notBefore (by decide)]
    rfl
  | before, b :: rest => by
    have ih := owed_writeCRLF (some b) rest
    by_cases hb : b = 0
    · subst hb
      rw [owed_of_notBefore (notBefore_cons (Ne.symm lf_ne_nul) rest), textOf,
        CString.bytes_ofBuffer_zero, writeCRLF, if_pos rfl]
      rfl
    rw [writeCRLF, if_neg hb, textOf, CString.bytes_ofBuffer_cons hb, linesOf]
    simp only [notBefore_ofBuffer]
    by_cases hcr : b = CR
    · -- the end of a line, whose LF is written now or is the next byte
      subst hcr
      rw [owed_of_notBefore (notBefore_cons cr_ne_lf rest), if_neg cr_ne_lf, if_pos rfl,
        if_pos rfl]
      by_cases hrest : NotBefore LF rest
      · rw [owed_of_notBefore hrest] at ih
        rw [if_pos hrest, if_pos hrest, printLines_end, ← ih]
        rfl
      · rw [owed_behind_CR hrest] at ih
        rw [if_neg hrest, if_neg hrest, ← ih]
        rfl
    rw [owed_of_notBehind (notBehind_some hcr), List.nil_append] at ih
    rw [if_neg hcr, if_neg hcr, List.nil_append]
    by_cases hlf : b = LF
    · subst hlf
      rw [if_pos rfl, if_pos rfl, printLines_end, ← ih]
      by_cases hbefore : NotBehind before
      · rw [owed_of_notBehind hbefore, if_pos hbefore]
        rfl
      · have howed : owed before (LF :: rest) = [CR] :=
          if_neg (not_or.mpr ⟨not_not.mpr rfl, hbefore⟩)
        rw [howed, if_neg hbefore]
        rfl
    · rw [owed_of_notBefore (notBefore_cons hlf rest), if_neg hlf, if_neg hlf, printLines_char,
        ← ih]
      rfl

theorem writeCRLF_eq (src : List Byte) : writeCRLF none src = printLines [CR, LF] (textOf src) := by
  have hfirst : NotBehind none := by decide
  rw [← owed_writeCRLF none src, owed_of_notBehind hfirst, List.nil_append]

/-! ## Results -/

theorem nul_notMem_print {ending : List Byte} (h : 0 ∉ ending) (src : List Byte) :
    0 ∉ printLines ending (textOf src) := by
  intro hzero
  rcases mem_printLines hzero with hmem | htext
  · exact h hmem
  · exact (CString.ofBuffer src).no_nul (of_mem_linesOf htext).1

theorem bytes_convertLF (src : List Byte) :
    (convertLF src).bytes = printLines [LF] (textOf src) := by
  rw [← writeLF_eq]
  refine bytes_converted (by rw [length_writeLF]) ?_
  rw [writeLF_eq]
  exact nul_notMem_print (by decide) src

theorem bytes_convertCRLF (src : List Byte) :
    (convertCRLF src).bytes = printLines [CR, LF] (textOf src) := by
  rw [← writeCRLF_eq]
  refine bytes_converted (by rw [length_writeCRLF]) ?_
  rw [writeCRLF_eq]
  exact nul_notMem_print (by decide) src

theorem ofBuffer_bytes (s : CString) : (CString.ofBuffer s.bytes).bytes = s.bytes :=
  CString.bytes_ofBuffer_of_not_mem s.no_nul

theorem textOf_convertLF (src : List Byte) : textOf (convertLF src).bytes = textOf src := by
  rw [textOf, ofBuffer_bytes, bytes_convertLF]
  exact linesOf_print_lf cr_ne_lf (plain_linesOf _)

theorem textOf_convertCRLF (src : List Byte) : textOf (convertCRLF src).bytes = textOf src := by
  rw [textOf, ofBuffer_bytes, bytes_convertCRLF]
  exact linesOf_print_crlf cr_ne_lf (plain_linesOf _)

/-- The same text is converted to the same string. -/
theorem convertLF_congr {s t : List Byte} (h : textOf s = textOf t) : convertLF s = convertLF t :=
  CString.ext (by rw [bytes_convertLF, bytes_convertLF, h])

theorem convertCRLF_congr {s t : List Byte} (h : textOf s = textOf t) :
    convertCRLF s = convertCRLF t :=
  CString.ext (by rw [bytes_convertCRLF, bytes_convertCRLF, h])

/-- **Line endings.** Both passes agree on the size. What is behind the first zero is not looked
at. Every line of the result of `convertCRLF` ends in CR and LF, and there is no CR in that of
`convertLF`. Converting again changes nothing, and `convertLF` undoes `convertCRLF`. -/
theorem line_endings_converted (src : List Byte) :
    ((writeLF src).length = sizeLF src ∧ (writeCRLF none src).length = sizeCRLF none src) ∧
      (convertLF (CString.ofBuffer src).bytes = convertLF src ∧
        convertCRLF (CString.ofBuffer src).bytes = convertCRLF src) ∧
      Paired CR LF (convertCRLF src).bytes ∧ CR ∉ (convertLF src).bytes ∧
      convertLF (convertCRLF src).bytes = convertLF src ∧
      convertLF (convertLF src).bytes = convertLF src ∧
      convertCRLF (convertCRLF src).bytes = convertCRLF src := by
  have htext : textOf (CString.ofBuffer src).bytes = textOf src := by
    rw [textOf, ofBuffer_bytes]
  refine ⟨⟨length_writeLF src, length_writeCRLF none src⟩,
    ⟨convertLF_congr htext, convertCRLF_congr htext⟩, ?_, ?_, ?_, ?_, ?_⟩
  · rw [bytes_convertCRLF]
    exact paired_print cr_ne_lf (plain_linesOf _)
  · rw [bytes_convertLF]
    intro hcr
    rcases mem_printLines hcr with hlf | hmem
    · exact cr_ne_lf (List.mem_singleton.mp hlf)
    · exact (of_mem_linesOf hmem).2.1 rfl
  · exact convertLF_congr (textOf_convertCRLF src)
  · exact convertLF_congr (textOf_convertLF src)
  · exact convertCRLF_congr (textOf_convertCRLF src)

/-- A lone LF, a lone CR, both together and a CR at the end. -/
example : (convertCRLF [0x61, LF, CR, 0x62, CR, LF, CR]).bytes =
    [0x61, CR, LF, CR, LF, 0x62, CR, LF, CR, LF] := by decide

end KasmVNC.Rfb
