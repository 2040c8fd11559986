import KasmVNC.Lib.Walk
import KasmVNC.Lib.Wire

/-!
# Unicode in the clipboard

`utf8ToUCS4` and `utf16ToUCS4` take one character off the front of a string and say how long it
was. The conversions of whole strings go through the string twice: they count the units of the
result, and then write them into a buffer of zeros of that size.

A character that is cut off at the end of a UTF-8 string is said to be one byte longer than what
is left of it.
-/

namespace KasmVNC.Rfb

open KasmVNC.Lib

/-- A `wchar_t`, as a unit of UTF-16. -/
abbrev Wchar := BitVec 16

/-! ## Single characters -/

/-- U+FFFD stands for what is no character. -/
abbrev replacement : ℕ := 0xfffd

/-- The branch of `ucs4ToUTF8` for three bytes, which also writes the replacement. -/
def threeBytes (src : ℕ) : List Byte :=
  [BitVec.ofNat 8 (0xe0 ||| src >>> 12), BitVec.ofNat 8 (0x80 ||| (src >>> 6 &&& 0x3f)),
    BitVec.ofNat 8 (0x80 ||| (src &&& 0x3f))]

/-- What is written before the zero. Its length is returned. -/
def ucs4ToUTF8 (src : ℕ) : List Byte :=
  if src < 0x80 then [BitVec.ofNat 8 src]
  else if src < 0x800 then
    [BitVec.ofNat 8 (0xc0 ||| src >>> 6), BitVec.ofNat 8 (0x80 ||| (src &&& 0x3f))]
  else if src < 0x10000 then threeBytes src
  else if src < 0x110000 then
    [BitVec.ofNat 8 (0xf0 ||| src >>> 18), BitVec.ofNat 8 (0x80 ||| (src >>> 12 &&& 0x3f)),
      BitVec.ofNat 8 (0x80 ||| (src >>> 6 &&& 0x3f)), BitVec.ofNat 8 (0x80 ||| (src &&& 0x3f))]
  else threeBytes replacement

/-- `(*src & 0xc0) == 0x80` -/
def ContinuesChar (b : Byte) : Prop := b &&& 0xc0 = 0x80

instance (b : Byte) : Decidable (ContinuesChar b) := inferInstanceAs (Decidable (_ = _))

/-- The loop over `count` continuation bytes. A byte that is missing is counted too. -/
def utf8Tail : ℕ → ℕ → ℕ → List Byte → ℕ × ℕ
  | 0, dst, consumed, _ => (dst, consumed)
  | _ + 1, _, consumed, [] => (replacement, consumed + 1)
  | count + 1, dst, consumed, b :: src =>
    if ContinuesChar b then
      utf8Tail count (dst <<< 6 ||| (b &&& 0x3f).toNat) (consumed + 1) src
    else (replacement, consumed + 1)

/-- The character and what is consumed of the `max` bytes of `src`. -/
def utf8ToUCS4 : List Byte → ℕ × ℕ
  | [] => (replacement, 0)
  | b :: src =>
    if b &&& 0x80 = 0 then utf8Tail 0 b.toNat 1 src
    else if b &&& 0xe0 = 0xc0 then utf8Tail 1 (b &&& 0x1f).toNat 1 src
    else if b &&& 0xf0 = 0xe0 then utf8Tail 2 (b &&& 0x0f).toNat 1 src
    else if b &&& 0xf8 = 0xf0 then utf8Tail 3 (b &&& 0x07).toNat 1 src
    else (replacement, 1 + (src.takeWhile fun b => ContinuesChar b).length)

def ucs4ToUTF16 (src : ℕ) : List Wchar :=
  if src < 0xd800 ∨ 0xe000 ≤ src ∧ src < 0x10000 then [BitVec.ofNat 16 src]
  else if 0x10000 ≤ src ∧ src < 0x110000 then
    [BitVec.ofNat 16 (0xd800 ||| ((src - 0x10000) >>> 10 &&& 0x03ff)),
      BitVec.ofNat 16 (0xdc00 ||| ((src - 0x10000) &&& 0x03ff))]
  else [BitVec.ofNat 16 replacement]

/-- The bit that tells the surrogates from each other. Other units have it too. -/
def HasLowBit (u : Wchar) : Prop := u &&& 0x0400 ≠ 0

instance (u : Wchar) : Decidable (HasLowBit u) := inferInstanceAs (Decidable (_ ≠ _))

/-- What follows a unit that is the first of a pair. -/
def utf16Second (u : Wchar) : List Wchar → ℕ × ℕ
  | [] => (replacement, 1)
  | v :: _ =>
    if v &&& 0xfc00 ≠ 0xdc00 then (replacement, 1)
    else ((0x10000 + (u &&& 0x03ff).toNat <<< 10) ||| (v &&& 0x3ff).toNat, 2)

def utf16ToUCS4 : List Wchar → ℕ × ℕ
  | [] => (replacement, 0)
  | u :: src =>
    if u < 0xd800 ∨ u ≥ 0xe000 then (u.toNat, 1)
    else if HasLowBit u then (replacement, ((u :: src).takeWhile fun u => HasLowBit u).length)
    else utf16Second u src

/-! ## Strings

The conversions differ in how a character is read, and in the units that it becomes. They are
given the units that their second argument counts.
-/

section Conversion

variable {v w : ℕ} (next : List (BitVec v) → ℕ × ℕ) (units : ℕ → List (BitVec w))

/-- The first pass. There is always space for a zero. -/
def convertSize (src : List (BitVec v)) : Except WalkFault ℕ :=
  walkAll 0 next (fun sz ucs => sz + (units ucs).length) src 1

/-- The second pass. -/
def convertWrite (src : List (BitVec v)) : Except WalkFault (List (BitVec w)) :=
  walkAll 0 next (fun out ucs => out ++ units ucs) src []

/-- A buffer of zeros, with what the second pass writes at its front. -/
def filled (sz : ℕ) (out : List (BitVec w)) : List (BitVec w) :=
  out ++ List.replicate (sz - out.length) 0

def convert (src : List (BitVec v)) : Except WalkFault (List (BitVec w)) := do
  let sz ← convertSize next units src
  let out ← convertWrite next units src
  return filled sz out

end Conversion

/-- A question mark stands for what Latin 1 does not have. -/
def latin1 (ucs : ℕ) : List Byte := [if ucs > 0xff then 0x3F else BitVec.ofNat 8 ucs]

def utf8ToLatin1 : List Byte → Except WalkFault (List Byte) := convert utf8ToUCS4 latin1

def utf16ToUTF8 : List Wchar → Except WalkFault (List Byte) := convert utf16ToUCS4 ucs4ToUTF8

def utf8ToUTF16 : List Byte → Except WalkFault (List Wchar) := convert utf8ToUCS4 ucs4ToUTF16

/-! ## Both passes -/

section Passes

variable {v w : ℕ} {next : List (BitVec v) → ℕ × ℕ} {units : ℕ → List (BitVec w)}

theorem foldl_length (cs : List ℕ) (sz : ℕ) :
    cs.foldl (fun sz ucs => sz + (units ucs).length) sz = sz + (cs.flatMap units).length := by
  induction cs generalizing sz with
  | nil => rfl
  | cons c cs ih =>
    rw [List.foldl_cons, ih, List.flatMap_cons, List.length_append, Nat.add_assoc]

theorem foldl_units (cs : List ℕ) (out : List (BitVec w)) :
    cs.foldl (fun out ucs => out ++ units ucs) out = out ++ cs.flatMap units := by
  induction cs generalizing out with
  | nil => exact (List.append_nil out).symm
  | cons c cs ih => rw [List.foldl_cons, ih, List.flatMap_cons, List.append_assoc]

theorem filled_size (out : List (BitVec w)) : filled (1 + out.length) out = out ++ [0] := by
  rw [filled, Nat.add_sub_cancel]
  rfl

variable {src : List (BitVec v)} {cs : List ℕ}

/-- The passes agree on the units of a string that has characters only. -/
theorem convert_chars (units : ℕ → List (BitVec w)) (hnext : Advances next) (h : Chars 0 next src cs) :
    convertSize next units src = .ok (1 + (cs.flatMap units).length) ∧
      convertWrite next units src = .ok (cs.flatMap units) ∧
      convert next units src = .ok (cs.flatMap units ++ [0]) := by
  have hsize : convertSize next units src = .ok (1 + (cs.flatMap units).length) := by
    rw [convertSize, walkAll, hnext.walk_chars h (Nat.lt_succ_self _), foldl_length]
  have hwrite : convertWrite next units src = .ok (cs.flatMap units) := by
    rw [convertWrite, walkAll, hnext.walk_chars h (Nat.lt_succ_self _), foldl_units,
      List.nil_append]
  refine ⟨hsize, hwrite, ?_⟩
  rw [convert, hsize, hwrite, ← filled_size]
  rfl

theorem convert_overruns (units : ℕ → List (BitVec w)) (hnext : Advances next) (h : Overruns 0 next src) :
    convertSize next units src = .error .outOfBounds ∧
      convert next units src = .error .outOfBounds := by
  have hsize : convertSize next units src = .error .outOfBounds :=
    hnext.walk_overruns h (Nat.lt_succ_self _) 1
  refine ⟨hsize, ?_⟩
  rw [convert, hsize]
  rfl

/-- The loops end. -/
theorem convert_ends (hnext : Advances next) (src : List (BitVec v)) :
    convert next units src ≠ .error .outOfTurns := by
  rcases hnext.chars_or_overruns 0 src with ⟨cs, hcs⟩ | hover
  · rw [(convert_chars units hnext hcs).2.2]
    exact nofun
  · rw [(convert_overruns units hnext hover).2]
    exact nofun

end Passes

/-! ## What a UTF-8 character consumes -/

/-- How many bytes are to follow the first one, if it is one that begins a character. -/
def announced (b : Byte) : Option ℕ :=
  if b &&& 0x80 = 0 then some 0
  else if b &&& 0xe0 = 0xc0 then some 1
  else if b &&& 0xf0 = 0xe0 then some 2
  else if b &&& 0xf8 = 0xf0 then some 3
  else none

/-- How many bytes at the front continue a character. -/
def continuing (src : List Byte) : ℕ := (src.takeWhile fun b => ContinuesChar b).length

/-- How long the first character is. A byte that does not continue it, where one should, counts
as one of it. -/
def charLength : List Byte → ℕ
  | [] => 0
  | b :: src =>
    match announced b with
    | some count => 1 + min count (continuing src + 1)
    | none => 1 + continuing src

/-- The first byte announces more bytes than there are, and all that are there continue it. -/
def CutOff : List Byte → Prop
  | [] => False
  | b :: src => (announced b).any (src.length < ·) ∧ ∀ c ∈ src, ContinuesChar c

instance : ∀ src, Decidable (CutOff src)
  | [] => inferInstanceAs (Decidable False)
  | _ :: _ => inferInstanceAs (Decidable (_ ∧ _))

theorem continuing_le (src : List Byte) : continuing src ≤ src.length :=
  (List.takeWhile_prefix _).length_le

theorem continuing_cons (b : Byte) (src : List Byte) :
    continuing (b :: src) = if ContinuesChar b then continuing src + 1 else 0 := by
  rw [continuing, List.takeWhile_cons]
  by_cases hb : ContinuesChar b
  · rw [if_pos hb, if_pos (decide_eq_true hb), List.length_cons]
    rfl
  · rw [if_neg hb, if_neg fun h => hb (of_decide_eq_true h)]
    rfl

theorem continuing_eq_length_iff {src : List Byte} :
    continuing src = src.length ↔ ∀ c ∈ src, ContinuesChar c := by
  induction src with
  | nil => simp [continuing]
  | cons b src ih =>
    rw [continuing_cons, List.length_cons, List.forall_mem_cons, ← ih]
    split
    · next hb => rw [and_iff_right hb, Nat.add_right_cancel_iff]
    · next hb => exact iff_of_false (Nat.succ_ne_zero _).symm fun h => hb h.1

theorem utf8Tail_consumed : ∀ (count dst consumed : ℕ) (src : List Byte),
    (utf8Tail count dst consumed src).2 = consumed + min count (continuing src + 1)
  | 0, _, consumed, _ => by simp [utf8Tail]
  | count + 1, _, consumed, [] => by simp [utf8Tail, continuing]
  | count + 1, dst, consumed, b :: src => by
    have ih := utf8Tail_consumed count (dst <<< 6 ||| (b &&& 0x3f).toNat) (consumed + 1) src
    rw [utf8Tail, continuing_cons]
    by_cases hb : ContinuesChar b
    · rw [if_pos hb, if_pos hb, ih]
      omega
    · rw [if_neg hb, if_neg hb]
      show consumed + 1 = _
      omega

/-- What `utf8ToUCS4` says is the length of the character. -/
theorem utf8ToUCS4_consumed (src : List Byte) : (utf8ToUCS4 src).2 = charLength src := by
  cases src with
  | nil => rfl
  | cons b src =>
    rw [utf8ToUCS4, charLength, announced]
    split_ifs
    · exact utf8Tail_consumed 0 _ 1 src
    · exact utf8Tail_consumed 1 _ 1 src
    · exact utf8Tail_consumed 2 _ 1 src
    · exact utf8Tail_consumed 3 _ 1 src
    · rfl

theorem charLength_le (src : List Byte) : charLength src ≤ src.length + 1 := by
  cases src with
  | nil => exact Nat.zero_le 1
  | cons b src =>
    have hle := continuing_le src
    rw [charLength, List.length_cons]
    split <;> omega

theorem charLength_pos (b : Byte) (src : List Byte) : 0 < charLength (b :: src) := by
  rw [charLength]
  split <;> omega

/-- A character is longer than what is left exactly if it is cut off. -/
theorem lt_charLength_iff (src : List Byte) : src.length < charLength src ↔ CutOff src := by
  cases src with
  | nil => exact iff_of_false (Nat.lt_irrefl 0) id
  | cons b src =>
    have hle := continuing_le src
    rw [charLength, CutOff, ← continuing_eq_length_iff, List.length_cons]
    cases announced b with
    | none =>
      simp only [Option.any_none]
      exact iff_of_false (by omega) (by simp)
    | some count =>
      simp only [Option.any_some, decide_eq_true_eq]
      omega

theorem advances_utf8 : Advances utf8ToUCS4 where
  pos b src := (utf8ToUCS4_consumed (b :: src)).symm ▸ charLength_pos b src
  le src := (utf8ToUCS4_consumed src).symm ▸ charLength_le src

/-- The decoder comes to a character that is cut off. -/
theorem overruns_utf8_iff {src : List Byte} : Overruns 0 utf8ToUCS4 src ↔
    ∃ i, Starts 0 charLength src i ∧ CutOff (src.drop i) := by
  have hwidth : (fun s => (utf8ToUCS4 s).2) = charLength := funext utf8ToUCS4_consumed
  rw [overruns_iff, hwidth]
  constructor
  · rintro ⟨i, b, rest, hstarts, hrest, -, hlt⟩
    rw [utf8ToUCS4_consumed, lt_charLength_iff] at hlt
    exact ⟨i, hstarts, hrest.symm ▸ hlt⟩
  · rintro ⟨i, hstarts, hcut⟩
    cases hrest : src.drop i with
    | nil =>
      rw [hrest] at hcut
      exact hcut.elim
    | cons b rest =>
      rw [hrest] at hcut
      refine ⟨i, b, rest, hstarts, hrest, ?_, ?_⟩
      · rintro rfl
        exact absurd hcut.1 (by simp [announced])
      · rw [utf8ToUCS4_consumed]
        exact (lt_charLength_iff _).mpr hcut

/-! ## Staying inside -/

/-- The passes end without a byte read outside, and write what has been counted. The first pass
counts a zero too. -/
def StaysInside {w : ℕ} (units : ℕ → List (BitVec w)) (src : List Byte) : Prop :=
  ∃ sz out, convertSize utf8ToUCS4 units src = .ok sz ∧
    convertWrite utf8ToUCS4 units src = .ok out ∧ sz = 1 + out.length

theorem staysInside_iff {w : ℕ} (units : ℕ → List (BitVec w)) (src : List Byte) :
    StaysInside units src ↔ ∀ i, Starts 0 charLength src i → ¬CutOff (src.drop i) := by
  have hover : Overruns 0 utf8ToUCS4 src ↔ _ := overruns_utf8_iff
  rcases advances_utf8.chars_or_overruns 0 src with ⟨cs, hcs⟩ | hoverruns
  · obtain ⟨hsize, hwrite, -⟩ := convert_chars units advances_utf8 hcs
    refine iff_of_true ⟨_, _, hsize, hwrite, rfl⟩ fun i hi hcut => ?_
    exact hcs.not_overruns (hover.mpr ⟨i, hi, hcut⟩)
  · obtain ⟨hsize, -⟩ := convert_overruns units advances_utf8 hoverruns
    obtain ⟨i, hi, hcut⟩ := hover.mp hoverruns
    refine iff_of_false ?_ fun h => h i hi hcut
    rintro ⟨sz, out, hok, -⟩
    rw [hsize] at hok
    cases hok

/-- **Decoding in bounds.** `utf8ToUCS4` consumes between one byte and all of them unless the
character is cut off, and the conversions stay inside of a string unless they come to such a
character. They end in any case. -/
theorem utf8_decoding_inside_iff (src : List Byte) :
    ((1 ≤ (utf8ToUCS4 src).2 ∧ (utf8ToUCS4 src).2 ≤ src.length) ↔ src ≠ [] ∧ ¬CutOff src) ∧
      ((StaysInside latin1 src ∧ StaysInside ucs4ToUTF16 src) ↔
        ∀ i, Starts 0 charLength src i → ¬CutOff (src.drop i)) ∧
      utf8ToLatin1 src ≠ .error .outOfTurns ∧ utf8ToUTF16 src ≠ .error .outOfTurns := by
  refine ⟨?_, ?_, convert_ends advances_utf8 src, convert_ends advances_utf8 src⟩
  · rw [utf8ToUCS4_consumed, ← lt_charLength_iff, Nat.not_lt]
    cases src with
    | nil => exact iff_of_false (by simp [charLength]) (by simp)
    | cons b src =>
      exact and_congr_left' (iff_of_true (charLength_pos b src) (List.cons_ne_nil b src))
  · rw [staysInside_iff, staysInside_iff, and_self]

/-- The first byte of two, and nothing behind it. -/
theorem utf8_reads_outside :
    (utf8ToUCS4 [0xC3]).2 = 2 ∧ utf8ToLatin1 [0xC3] = .error .outOfBounds ∧
      utf8ToUTF16 [0x61, 0xE2, 0x82] = .error .outOfBounds := by
  decide

end KasmVNC.Rfb
