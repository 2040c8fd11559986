import KasmVNC.Lib.Overwrite
import KasmVNC.Network.HttpPaths

/-!
# Percent codes

`percent_encode` prints a byte with `sprintf`, as a `char`, which is signed. A byte from `0x80` on
becomes a negative `int`, and eight digits are printed for it. The next character is written over
the third of them.
-/

namespace KasmVNC.Network

open KasmVNC.Lib

abbrev percent : Byte := 0x25

/-- In the C locale. -/
def isalnum (b : Byte) : Prop :=
  0x30 ≤ b ∧ b ≤ 0x39 ∨ 0x41 ≤ b ∧ b ≤ 0x5A ∨ 0x61 ≤ b ∧ b ≤ 0x7A

instance (b : Byte) : Decidable (isalnum b) := inferInstanceAs (Decidable (_ ∨ _))

/-! ## Encoding -/

/-- `sprintf("%02X")` of a `char`, with the zero behind it. -/
def sprintf02X (b : Byte) : List Byte := hexadecimal 2 (b.signExtend 32).toNat ++ [0]

def keptInNames (b : Byte) : Prop := isalnum b ∨ b = dot ∨ b = 0x2C

instance (b : Byte) : Decidable (keptInNames b) := inferInstanceAs (Decidable (_ ∨ _))

theorem two_digits (b : Byte) : 3 ≤ (percent :: sprintf02X b).length := by
  have hwidth := le_length_hexadecimal 2 (b.signExtend 32).toNat
  rw [sprintf02X, List.length_cons, List.length_append, List.length_singleton]
  exact Nat.succ_le_succ (Nat.le_succ_of_le hwidth)

/-- What is written for a byte, with `kept` for the bytes that stand for themselves. -/
def percentToken (kept : Byte → Prop) [DecidablePred kept] (b : Byte) : Token Byte :=
  if kept b then ⟨[b], 1, Nat.le_refl 1⟩ else ⟨percent :: sprintf02X b, 3, two_digits b⟩

/-- The bytes of `dst` that have been written. -/
def percent_encode (src : CString) : List Byte :=
  let out := writeAll (percentToken keptInNames) src.bytes 0 []
  put out (printed (percentToken keptInNames) src.bytes).length [0]

/-! ## Decoding -/

/-- The loop, with what may be read of the string, what has been written, and the number of bytes
that have been read. `none` is a read outside. -/
def percentDecodeFrom (filter : Bool) : List Byte → List Byte → ℕ → Option (List Byte × ℕ)
  | [], _, _ => none
  | b :: src, dst, reads =>
    if b = 0 then some (dst, reads + 1)
    else if b ≠ percent then percentDecodeFrom filter src (dst ++ [b]) (reads + 1)
    else
      match src with
      | [] => none
      | first :: src =>
        if first = 0 then some (dst, reads + 2)
        else
          match src with
          | [] => none
          | second :: src =>
            if second = 0 then some (dst, reads + 3)
            else
              let c := strtolHex first second
              percentDecodeFrom filter src
                (dst ++ [if filter ∧ c = slash then 0x5F else c]) (reads + 3)

/-- What has been written and how much has been read, with the zero behind the text. -/
def percentDecodeBuffer (src : List Byte) (filter : Bool) : Option (List Byte × ℕ) :=
  (percentDecodeFrom filter src [] 0).map fun r => (r.1 ++ [0], r.2)

/-! ## What a byte becomes -/

section Bytes

/-- The two digits of a byte. -/
def highDigit (b : Byte) : Byte := hexDigitOf (b.toNat / 16)

def lowDigit (b : Byte) : Byte := hexDigitOf (b.toNat % 16)

/-- Two digits for the others, and six in front of them for a negative `char`. -/
theorem sprintf02X_eq (b : Byte) : sprintf02X b =
    if b < 0x80 then [highDigit b, lowDigit b, 0]
    else [0x46, 0x46, 0x46, 0x46, 0x46, 0x46, highDigit b, lowDigit b, 0] := by
  have hbyte := b.isLt
  have hlt : b < 0x80 ↔ b.toNat < 0x80 := BitVec.lt_def
  have hint : (b.signExtend 32).toNat =
      b.toNat + if b.toNat < 0x80 then 0 else 0xFFFFFF00 := by
    rw [BitVec.toNat_signExtend, BitVec.toNat_setWidth, BitVec.msb_eq_decide]
    by_cases hb : b.toNat < 0x80
    · rw [if_pos hb, if_neg (by simpa using hb)]
      omega
    · rw [if_neg hb, if_pos (by simpa using hb)]
      omega
  by_cases hb : b < 0x80
  · rw [if_pos hb, sprintf02X, hint, if_pos (hlt.mp hb), Nat.add_zero, hexadecimal_two hbyte]
    rfl
  · rw [if_neg hb, sprintf02X, hint, if_neg (mt hlt.mpr hb), hexadecimal_of_le (by omega),
      hexadecimal_of_le (by omega)]
    have htop : (b.toNat + 0xFFFFFF00) / 16 / 16 = 0xFFFFFF := by omega
    have hhigh : (b.toNat + 0xFFFFFF00) / 16 % 16 = b.toNat / 16 := by omega
    have hlow : (b.toNat + 0xFFFFFF00) % 16 = b.toNat % 16 := by omega
    have hsix : hexadecimal 0 0xFFFFFF = [0x46, 0x46, 0x46, 0x46, 0x46, 0x46] := by decide
    rw [htop, hhigh, hlow, hsix]
    rfl

theorem lt_of_isalnum (b : Byte) (h : isalnum b) : b < 0x80 := by
  have hbelow : ∀ c : Byte, b ≤ c → c.toNat < 0x80 → b < 0x80 := fun c hle hlt =>
    BitVec.lt_def.mpr (Nat.lt_of_le_of_lt (BitVec.le_def.mp hle) hlt)
  rcases h with ⟨-, hle⟩ | ⟨-, hle⟩ | ⟨-, hle⟩
  · exact hbelow _ hle (by decide)
  · exact hbelow _ hle (by decide)
  · exact hbelow _ hle (by decide)

theorem lt_of_keptInNames (b : Byte) (h : keptInNames b) : b < 0x80 := by
  rcases h with halnum | rfl | rfl
  · exact lt_of_isalnum b halnum
  · decide
  · decide

theorem hexDigit_hexDigitOf : ∀ d < 16, hexDigit (hexDigitOf d) = some (BitVec.ofNat 8 d) := by
  decide

theorem strtolHex_digits (b : Byte) : strtolHex (highDigit b) (lowDigit b) = b := by
  have hbyte := b.isLt
  rw [strtolHex, highDigit, lowDigit, hexDigit_hexDigitOf _ (by omega),
    hexDigit_hexDigitOf _ (Nat.mod_lt _ (by decide))]
  refine BitVec.eq_of_toNat_eq ?_
  rw [BitVec.toNat_add, BitVec.toNat_mul, BitVec.toNat_ofNat, BitVec.toNat_ofNat]
  show (b.toNat / 16 % 256 * 16 % 256 + b.toNat % 16 % 256) % 256 = b.toNat
  omega

theorem digits_ne_zero (b : Byte) : highDigit b ≠ 0 ∧ lowDigit b ≠ 0 := by
  have hdigit : ∀ d < 16, hexDigitOf d ≠ 0 := by decide
  have hbyte := b.isLt
  exact ⟨hdigit _ (by omega), hdigit _ (Nat.mod_lt _ (by decide))⟩

end Bytes

section Tokens

variable {kept : Byte → Prop} [DecidablePred kept] {b : Byte}

theorem kept_of_kept (h : kept b) : (percentToken kept b).kept = [b] := by
  rw [percentToken, if_pos h]
  rfl

theorem kept_of_lt (h : ¬kept b) (hb : b < 0x80) :
    (percentToken kept b).kept = [percent, highDigit b, lowDigit b] := by
  rw [Token.kept, percentToken, if_neg h]
  dsimp only
  rw [sprintf02X_eq, if_pos hb]
  rfl

theorem kept_of_high (h : ¬kept b) (hb : ¬b < 0x80) :
    (percentToken kept b).kept = [percent, 0x46, 0x46] := by
  rw [Token.kept, percentToken, if_neg h]
  dsimp only
  rw [sprintf02X_eq, if_neg hb]
  rfl

theorem left_of_kept (h : kept b) : (percentToken kept b).left = [] := by
  rw [percentToken, if_pos h]
  rfl

theorem left_of_lt (h : ¬kept b) (hb : b < 0x80) : (percentToken kept b).left = [0] := by
  rw [Token.left, percentToken, if_neg h]
  dsimp only
  rw [sprintf02X_eq, if_pos hb]
  rfl

theorem left_of_high (h : ¬kept b) (hb : ¬b < 0x80) : (percentToken kept b).left =
    [0x46, 0x46, 0x46, 0x46, highDigit b, lowDigit b, 0] := by
  rw [Token.left, percentToken, if_neg h]
  dsimp only
  rw [sprintf02X_eq, if_neg hb]
  rfl

theorem width_percentToken : (percentToken kept b).width = if kept b then 1 else 3 := by
  rw [percentToken]
  split <;> rfl

theorem length_word : (percentToken kept b).word.length =
    if kept b then 1 else if b < 0x80 then 4 else 10 := by
  rw [percentToken]
  split
  · rfl
  · dsimp only
    rw [sprintf02X_eq]
    split <;> rfl

/-- The length of the text for these bytes. -/
def encodedLength (kept : Byte → Prop) [DecidablePred kept] : List Byte → ℕ
  | [] => 0
  | b :: src => (if kept b then 1 else 3) + encodedLength kept src

theorem length_printed (src : List Byte) :
    (printed (percentToken kept) src).length = encodedLength kept src := by
  induction src with
  | nil => rfl
  | cons b src ih =>
    rw [printed_cons, List.length_append, Token.length_kept, ih, encodedLength,
      width_percentToken]

theorem encodedLength_le (src : List Byte) : encodedLength kept src ≤ 3 * src.length := by
  induction src with
  | nil => exact Nat.le_refl 0
  | cons b src ih =>
    rw [encodedLength, List.length_cons]
    split <;> omega

/-- The bound holds unless the digits of a byte from `0x80` on go beyond it. -/
theorem length_write_le (hkept : ∀ b, kept b → b < 0x80) (src : List Byte) :
    (writeAll (percentToken kept) src 0 []).length ≤ 3 * src.length + 1 ↔
      ∀ before b more, src = before ++ b :: more → ¬b < 0x80 →
        encodedLength kept before + 9 ≤ 3 * src.length := by
  rw [length_writeAll_le (Nat.le_refl 0), List.length_nil, and_iff_right (Nat.zero_le _)]
  refine forall₃_congr fun before b more => forall_congr' fun hsrc => ?_
  have hbefore : encodedLength kept before ≤ 3 * before.length := encodedLength_le before
  have hlength := congrArg List.length hsrc
  rw [List.length_append, List.length_cons] at hlength
  rw [length_printed, length_word]
  by_cases hb : b < 0x80
  · refine iff_of_true ?_ fun hnot => absurd hb hnot
    split_ifs <;> omega
  · rw [if_neg fun h => hb (hkept b h), if_neg hb]
    constructor
    · intro h _
      omega
    · intro h
      have := h hb
      omega

theorem zero_notMem_printed {src : List Byte} (h : ∀ b ∈ src, kept b → b ≠ 0) :
    0 ∉ printed (percentToken kept) src := by
  rw [printed, List.mem_flatMap]
  rintro ⟨b, hb, hzero⟩
  have hdigits := digits_ne_zero b
  by_cases hk : kept b
  · rw [kept_of_kept hk, List.mem_singleton] at hzero
    exact h b hb hk hzero.symm
  by_cases hlt : b < 0x80
  · rw [kept_of_lt hk hlt] at hzero
    rcases List.mem_cons.mp hzero with heq | hzero
    · exact absurd heq (by decide)
    rcases List.mem_cons.mp hzero with heq | hzero
    · exact hdigits.1 heq.symm
    · exact hdigits.2 (List.mem_singleton.mp hzero).symm
  · rw [kept_of_high hk hlt] at hzero
    exact absurd hzero (by decide)

end Tokens

/-! ## Decoding what has been encoded -/

/-- What a byte is decoded to. -/
def readBack (filter : Bool) (b : Byte) : Byte :=
  if ¬b < 0x80 then 0xFF else if filter ∧ b = slash then 0x5F else b

theorem percentDecode_byte {filter : Bool} {b : Byte} (hb : b ≠ percent) (rest : List Byte) :
    percentDecode filter (b :: rest) = b :: percentDecode filter rest := by
  rw [percentDecode.eq_def]
  exact if_pos hb

theorem percentDecode_escape {filter : Bool} (first second : Byte) (rest : List Byte) :
    percentDecode filter (percent :: first :: second :: rest) =
      (if filter ∧ strtolHex first second = slash then 0x5F else strtolHex first second) ::
        percentDecode filter rest := by
  rw [percentDecode.eq_def]
  exact if_neg (not_not.mpr rfl)

theorem percentDecode_token (filter : Bool) (b : Byte) (rest : List Byte) :
    percentDecode filter ((percentToken keptInNames b).kept ++ rest) =
      readBack filter b :: percentDecode filter rest := by
  have hkept : ∀ b, keptInNames b → b ≠ percent ∧ b ≠ slash := by
    intro b hb
    constructor
    · rintro rfl
      exact absurd hb (by decide)
    · rintro rfl
      exact absurd hb (by decide)
  by_cases h : keptInNames b
  · rw [kept_of_kept h, List.singleton_append, percentDecode_byte (hkept b h).1, readBack,
      if_neg (not_not.mpr (lt_of_keptInNames b h)), if_neg fun hslash => (hkept b h).2 hslash.2]
  by_cases hb : b < 0x80
  · rw [kept_of_lt h hb, readBack, if_neg (not_not.mpr hb)]
    simp only [List.cons_append, List.nil_append]
    rw [percentDecode_escape, strtolHex_digits]
  · rw [kept_of_high h hb, readBack, if_pos hb]
    simp only [List.cons_append, List.nil_append]
    rw [percentDecode_escape]
    have hff : strtolHex 0x46 0x46 = 0xFF := by decide
    rw [hff, if_neg fun hslash => absurd hslash.2 (by decide)]

theorem percentDecode_printed (filter : Bool) (src : List Byte) :
    percentDecode filter (printed (percentToken keptInNames) src) = src.map (readBack filter) := by
  induction src with
  | nil => rfl
  | cons b src ih => rw [printed_cons, percentDecode_token, ih, List.map_cons]

/-- The text that `percent_encode` leaves in `dst`. -/
theorem ofBuffer_percent_encode (s : CString) : (CString.ofBuffer (percent_encode s)).bytes =
    printed (percentToken keptInNames) s.bytes := by
  have hzero : 0 ∉ printed (percentToken keptInNames) s.bytes :=
    zero_notMem_printed fun b hb _ heq => s.no_nul (heq ▸ hb)
  rw [percent_encode, writeAll_nil, put_append]
  exact congrArg CString.bytes (CString.ofBuffer_append ⟨_, hzero⟩ _)

/-- A text comes back if every byte does. -/
theorem percent_decode_encode (s : CString) (filter : Bool) :
    percent_decode (CString.ofBuffer (percent_encode s)).bytes filter =
      s.bytes.map (readBack filter) := by
  have hzero : ∀ b, readBack filter b = 0 → b = 0 := by
    cases filter <;> decide
  rw [ofBuffer_percent_encode, percent_decode, percentDecode_printed]
  refine takeWhile_ne_of_notMem fun h => ?_
  obtain ⟨b, hb, hb0⟩ := List.mem_map.mp h
  exact s.no_nul (hzero b hb0 ▸ hb)

/-! ## Reading -/

section Reads

variable {filter : Bool}

theorem percentDecode_short {src : List Byte} (h : src.length < 2) :
    percentDecode filter (percent :: src) = [] := by
  rw [percentDecode.eq_def]
  match src, h with
  | [], _ => rfl
  | [_], _ => rfl

/-- A string is decoded without a read behind its zero, and with no more bytes written than have
been read. -/
theorem percentDecodeFrom_string : ∀ {src : List Byte} (dst : List Byte) (reads : ℕ), 0 ∉ src →
    ∃ r, percentDecodeFrom filter (src ++ [0]) dst reads =
        some (dst ++ percentDecode filter src, r) ∧
      reads + (percentDecode filter src).length + 1 ≤ r ∧ r ≤ reads + src.length + 1
  | [], dst, reads, _ => ⟨reads + 1, by simp [percentDecodeFrom, percentDecode], by
      simp [percentDecode]⟩
  | b :: src, dst, reads, h => by
    have hb : b ≠ 0 := fun heq => h (heq ▸ List.mem_cons_self)
    have hsrc : 0 ∉ src := fun hmem => h (List.mem_cons_of_mem b hmem)
    by_cases hper : b = percent
    · subst hper
      match src, hsrc with
      | [], _ =>
        rw [percentDecode_short (by decide)]
        exact ⟨reads + 2, by simp [percentDecodeFrom], by simp⟩
      | [first], hsrc =>
        have hfirst : first ≠ 0 := fun heq => hsrc (heq ▸ List.mem_cons_self)
        rw [percentDecode_short (by simp)]
        refine ⟨reads + 3, ?_, by simp⟩
        rw [List.append_nil, percentDecodeFrom.eq_def]
        exact (if_neg hb).trans ((if_neg (not_not.mpr rfl)).trans
          ((if_neg hfirst).trans (if_pos rfl)))
      | first :: second :: src, hsrc =>
        have hfirst : first ≠ 0 := fun heq => hsrc (heq ▸ List.mem_cons_self)
        have hsecond : second ≠ 0 := fun heq =>
          hsrc (heq ▸ List.mem_cons_of_mem _ List.mem_cons_self)
        have hrest : 0 ∉ src := fun hmem =>
          hsrc (List.mem_cons_of_mem _ (List.mem_cons_of_mem _ hmem))
        obtain ⟨r, hr, hle, hlt⟩ := percentDecodeFrom_string (dst ++ [if filter ∧
          strtolHex first second = slash then 0x5F else strtolHex first second]) (reads + 3)
          hrest
        refine ⟨r, ?_, ?_, ?_⟩
        · rw [percentDecode_escape, List.append_cons dst, ← hr, percentDecodeFrom.eq_def]
          exact (if_neg hb).trans ((if_neg (not_not.mpr rfl)).trans
            ((if_neg hfirst).trans (if_neg hsecond)))
        · rw [percentDecode_escape, List.length_cons]
          omega
        · rw [List.length_cons, List.length_cons, List.length_cons]
          omega
    · obtain ⟨r, hr, hle, hlt⟩ := percentDecodeFrom_string (dst ++ [b]) (reads + 1) hsrc
      refine ⟨r, ?_, ?_, ?_⟩
      · rw [percentDecode_byte hper, List.append_cons dst, ← hr, percentDecodeFrom.eq_def]
        exact (if_neg hb).trans (if_pos hper)
      · rw [percentDecode_byte hper, List.length_cons]
        omega
      · rw [List.length_cons]
        omega

end Reads

/-! ## Both directions -/

/-- What is asked of the codes: a text comes back, and a byte takes no more than three. -/
def CodedWithin (filter : Bool) (s : CString) : Prop :=
  percent_decode (CString.ofBuffer (percent_encode s)).bytes filter = s.bytes ∧
    (percent_encode s).length ≤ 3 * s.bytes.length + 1

/-- The bytes from `0x80` on are `0xFF` and not too near to the end, and there is no slash if it
would be filtered out. -/
def Encodable (filter : Bool) (s : List Byte) : Prop :=
  (∀ b ∈ s, ¬b < 0x80 → b = 0xFF) ∧ (filter = true → slash ∉ s) ∧
    ∀ before b more, s = before ++ b :: more → ¬b < 0x80 →
      encodedLength keptInNames before + 9 ≤ 3 * s.length

/-- The bytes that come back. -/
theorem map_readBack_iff {filter : Bool} {s : List Byte} : s.map (readBack filter) = s ↔
    (∀ b ∈ s, ¬b < 0x80 → b = 0xFF) ∧ (filter = true → slash ∉ s) := by
  have hbyte : ∀ b, readBack filter b = b ↔
      (¬b < 0x80 → b = 0xFF) ∧ (filter = true → slash ≠ b) := by
    cases filter <;> decide
  have hmap : s.map (readBack filter) = s ↔ ∀ b ∈ s, readBack filter b = b := by
    conv_lhs => rw [← List.map_id s, List.map_map]
    exact List.map_inj_left
  rw [hmap]
  simp only [hbyte]
  constructor
  · intro h
    exact ⟨fun b hb => (h b hb).1, fun hfilter hmem => (h slash hmem).2 hfilter rfl⟩
  · rintro ⟨hhigh, hslash⟩ b hb
    exact ⟨hhigh b hb, fun hfilter heq => hslash hfilter (heq ▸ hb)⟩

/-- **Percent codes.** They come back, in three bytes each, exactly for the texts whose bytes from
`0x80` on are `0xFF` and far enough from the end. No text is read or written too far when it is
decoded. -/
theorem percent_coding_iff (s src : CString) (filter : Bool) :
    (CodedWithin filter s ↔ Encodable filter s.bytes) ∧
      ∃ dst reads, percentDecodeBuffer (src.bytes ++ [0]) filter = some (dst, reads) ∧
        dst.length ≤ reads ∧ reads ≤ src.bytes.length + 1 ∧
          (CString.ofBuffer dst).bytes = percent_decode src.bytes filter := by
  constructor
  · have hlength : (percent_encode s).length ≤ 3 * s.bytes.length + 1 ↔
        (writeAll (percentToken keptInNames) s.bytes 0 []).length ≤ 3 * s.bytes.length + 1 := by
      have hle : encodedLength keptInNames s.bytes ≤ 3 * s.bytes.length := encodedLength_le s.bytes
      rw [percent_encode, length_put_le, length_printed]
      · exact and_iff_left (Nat.succ_le_succ hle)
      · rw [writeAll_nil, List.length_append]
        exact Nat.le_add_right _ _
    rw [CodedWithin, percent_decode_encode, map_readBack_iff, hlength,
      length_write_le lt_of_keptInNames, Encodable, and_assoc]
  · obtain ⟨r, hr, hle, hlt⟩ := @percentDecodeFrom_string filter src.bytes [] 0 src.no_nul
    refine ⟨percentDecode filter src.bytes ++ [0], r, ?_, ?_, ?_, ?_⟩
    · rw [percentDecodeBuffer, hr]
      rfl
    · rw [List.length_append, List.length_singleton]
      omega
    · omega
    · exact takeWhile_ne_concat _

/-- A byte from `0x80` on comes back as `0xFF`, and ten bytes are written for it. -/
theorem percent_encode_high :
    (percent_encode ⟨[0x80], by decide⟩).length = 10 ∧ ¬CodedWithin false ⟨[0x80], by decide⟩ ∧
      percent_decode (CString.ofBuffer (percent_encode ⟨[0xC3, 0xA9, 0x61, 0x61, 0x61, 0x61, 0x61],
        by decide⟩)).bytes false = [0xFF, 0xFF, 0x61, 0x61, 0x61, 0x61, 0x61] := by
  unfold CodedWithin
  decide

end KasmVNC.Network
