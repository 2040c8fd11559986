import KasmVNC.Network.PercentCoding

/-!
# The clipboard in the log

`percentEncode` writes the clipboard to the log, and `percentEncode4` what has been typed. The
buffer of the former holds three bytes for each byte, but ten are written for one from `0x80` on.
Where more follows, it is written over the digits that tell these bytes from each other.
-/

namespace KasmVNC.Rfb

open KasmVNC.Lib KasmVNC.Network

/-! ## The encoders -/

def keptInLog (b : Byte) : Prop :=
  isalnum b ∨ b = 0x20 ∨ b = dot ∨ b = 0x2C ∨ b = 0x3F ∨ b = 0x21 ∨ b = 0x22 ∨ b = 0x27

instance (b : Byte) : Decidable (keptInLog b) := inferInstanceAs (Decidable (_ ∨ _))

/-- The bytes of the buffer that have been written. The others are zero. -/
def percentEncode (str : List Byte) : List Byte := writeAll (percentToken keptInLog) str 0 []

/-- A unit of UTF-16 is not negative. -/
def keptInKeyLog (u : BitVec 16) : Prop :=
  (u < 128 ∧ isalnum (u.setWidth 8)) ∨ u = 0x20 ∨ u = 0x2E ∨ u = 0x2C ∨ u = 0x3F ∨ u = 0x21 ∨
    u = 0x22 ∨ u = 0x27

instance (u : BitVec 16) : Decidable (keptInKeyLog u) := inferInstanceAs (Decidable (_ ∨ _))

/-- `sprintf("%04hX")`, with the zero behind it. -/
def sprintf04hX (u : BitVec 16) : List Byte := hexadecimal 4 u.toNat ++ [0]

theorem sprintf04hX_eq (u : BitVec 16) : sprintf04hX u =
    [hexDigitOf (u.toNat / 16 / 16 / 16), hexDigitOf (u.toNat / 16 / 16 % 16),
      hexDigitOf (u.toNat / 16 % 16), hexDigitOf (u.toNat % 16), 0] := by
  have hlt := u.isLt
  rw [sprintf04hX, hexadecimal_succ (by decide), hexadecimal_succ (by decide),
    hexadecimal_succ (by decide), hexadecimal_one (by omega)]
  rfl

theorem four_digits (u : BitVec 16) : 5 ≤ (percent :: sprintf04hX u).length := by
  rw [sprintf04hX_eq]
  exact Nat.le_succ 5

def keyToken (u : BitVec 16) : Token Byte :=
  if keptInKeyLog u then ⟨[u.setWidth 8], 1, Nat.one_pos⟩
  else ⟨percent :: sprintf04hX u, 5, four_digits u⟩

def percentEncode4 (str : List (BitVec 16)) : List Byte := writeAll keyToken str 0 []

/-- The text that is logged, up to the first zero. -/
def logged (enc : List Byte) : List Byte := (CString.ofBuffer enc).bytes

/-- The text without the digits that are left behind it. -/
theorem logged_eq {α : Type*} {token : α → Token Byte} {src : List α}
    (h : 0 ∉ printed token src) : logged (writeAll token src 0 []) =
      printed token src ++ (behind token src []).takeWhile (· ≠ 0) := by
  rw [writeAll_nil]
  exact takeWhile_ne_append h

/-! ## What has been typed -/

section Keys

variable {u v : BitVec 16}

theorem kept_key (h : keptInKeyLog u) : (keyToken u).kept = [u.setWidth 8] := by
  rw [keyToken, if_pos h]
  rfl

theorem kept_key_escape (h : ¬keptInKeyLog u) : (keyToken u).kept =
    [percent, hexDigitOf (u.toNat / 16 / 16 / 16), hexDigitOf (u.toNat / 16 / 16 % 16),
      hexDigitOf (u.toNat / 16 % 16), hexDigitOf (u.toNat % 16)] := by
  rw [Token.kept, keyToken, if_neg h]
  dsimp only
  rw [sprintf04hX_eq]
  rfl

theorem toNat_lt_of_keptInKeyLog (h : keptInKeyLog u) : u.toNat < 128 := by
  rcases h with ⟨hlt, -⟩ | rfl | rfl | rfl | rfl | rfl | rfl | rfl
  · exact hlt
  all_goals decide

theorem byte_of_keptInKeyLog (h : keptInKeyLog u) : keptInLog (u.setWidth 8) := by
  rcases h with ⟨-, hbyte⟩ | rfl | rfl | rfl | rfl | rfl | rfl | rfl
  · exact Or.inl hbyte
  all_goals decide

theorem ne_of_keptInLog {b : Byte} (h : keptInLog b) : b ≠ percent ∧ b ≠ 0 ∧ b < 0x80 := by
  rcases h with hb | rfl | rfl | rfl | rfl | rfl | rfl | rfl
  · unfold isalnum at hb
    refine ⟨?_, ?_, ?_⟩ <;> bv_omega
  all_goals decide

theorem prefixFree_keyToken : PrefixFree keyToken := by
  refine prefixFree_of_mark percent 4 fun u => ?_
  by_cases h : keptInKeyLog u
  · exact Or.inl ⟨_, kept_key h, (ne_of_keptInLog (byte_of_keptInKeyLog h)).1⟩
  · exact Or.inr ⟨_, kept_key_escape h, rfl⟩

theorem keyToken_injective (h : (keyToken u).kept = (keyToken v).kept) : u = v := by
  have hu := u.isLt
  have hv := v.isLt
  by_cases hku : keptInKeyLog u <;> by_cases hkv : keptInKeyLog v
  · have hsmall := toNat_lt_of_keptInKeyLog hku
    have hsmall' := toNat_lt_of_keptInKeyLog hkv
    rw [kept_key hku, kept_key hkv] at h
    have hnat := congrArg BitVec.toNat (List.cons.inj h).1
    rw [BitVec.toNat_setWidth, BitVec.toNat_setWidth] at hnat
    exact BitVec.eq_of_toNat_eq (by omega)
  · rw [kept_key hku, kept_key_escape hkv] at h
    exact absurd (congrArg List.length h) (by simp)
  · rw [kept_key_escape hku, kept_key hkv] at h
    exact absurd (congrArg List.length h) (by simp)
  · rw [kept_key_escape hku, kept_key_escape hkv] at h
    refine BitVec.eq_of_toNat_eq (hexadecimal_injective (by decide : 0 < 4) hu hv ?_)
    have hdigits : hexadecimal 4 u.toNat ++ [0] = hexadecimal 4 v.toNat ++ [0] := by
      rw [← sprintf04hX, ← sprintf04hX, sprintf04hX_eq, sprintf04hX_eq]
      simpa using h
    exact List.append_cancel_right hdigits

theorem hexDigitOf_ne_zero : ∀ d < 16, hexDigitOf d ≠ 0 := by decide

theorem zero_notMem_printed_keys (str : List (BitVec 16)) : 0 ∉ printed keyToken str := by
  rw [printed, List.mem_flatMap]
  rintro ⟨u, -, hzero⟩
  have hlt := u.isLt
  by_cases h : keptInKeyLog u
  · rw [kept_key h, List.mem_singleton] at hzero
    exact (ne_of_keptInLog (byte_of_keptInKeyLog h)).2.1 hzero.symm
  · rw [kept_key_escape h] at hzero
    have hdigit : ∀ n, n < 16 → (0 : Byte) ≠ hexDigitOf n := fun n hn =>
      (hexDigitOf_ne_zero n hn).symm
    rcases List.mem_cons.mp hzero with heq | hzero
    · exact absurd heq (by decide)
    rcases List.mem_cons.mp hzero with heq | hzero
    · exact hdigit _ (by omega) heq
    rcases List.mem_cons.mp hzero with heq | hzero
    · exact hdigit _ (by omega) heq
    rcases List.mem_cons.mp hzero with heq | hzero
    · exact hdigit _ (by omega) heq
    · exact hdigit _ (by omega) (List.mem_singleton.mp hzero)

theorem length_printed_keys (str : List (BitVec 16)) :
    (printed keyToken str).length ≤ 5 * str.length := by
  induction str with
  | nil => exact Nat.le_refl 0
  | cons u str ih =>
    have hwidth : (keyToken u).width ≤ 5 := by
      rw [keyToken]
      split
      · exact Nat.le_add_left 1 4
      · exact Nat.le_refl 5
    rw [printed_cons, List.length_append, Token.length_kept, List.length_cons]
    omega

theorem length_percentEncode4 (str : List (BitVec 16)) :
    (percentEncode4 str).length ≤ 5 * str.length + 1 := by
  rw [percentEncode4, length_writeAll_le (Nat.le_refl 0)]
  refine ⟨Nat.zero_le _, fun before u more hstr => ?_⟩
  have hbefore := length_printed_keys before
  have hlength := congrArg List.length hstr
  have hword : (keyToken u).word.length ≤ 6 := by
    rw [keyToken]
    split
    · exact Nat.le_add_left 1 5
    · rw [List.length_cons, sprintf04hX_eq]
      exact Nat.le_refl 6
  rw [List.length_append, List.length_cons] at hlength
  omega

/-- What is logged of as many units is the same only for the same ones. -/
theorem percentEncode4_injective {s t : List (BitVec 16)} (hlength : t.length = s.length)
    (h : logged (percentEncode4 t) = logged (percentEncode4 s)) : t = s := by
  rw [percentEncode4, percentEncode4, logged_eq (zero_notMem_printed_keys t),
    logged_eq (zero_notMem_printed_keys s)] at h
  have hmap := (prefixFree_keyToken.printed_append hlength h).1
  exact List.map_injective_iff.mpr (fun _ _ => keyToken_injective) hmap

end Keys

/-! ## What is left behind the text -/

section Behind

variable {b : Byte} {r rem : List Byte}

abbrev logToken : Byte → Token Byte := percentToken keptInLog

theorem lt_of_keptInLog (b : Byte) (h : keptInLog b) : b < 0x80 := (ne_of_keptInLog h).2.2

theorem behind_kept (h : keptInLog b) :
    behind logToken (b :: r) rem = behind logToken r (rem.drop 1) := by
  rw [behind, left_of_kept h, length_word, if_pos h]
  rfl

theorem behind_low (h : ¬keptInLog b) (hb : b < 0x80) :
    behind logToken (b :: r) rem = behind logToken r (0 :: rem.drop 4) := by
  rw [behind, left_of_lt h hb, length_word, if_neg h, if_pos hb]
  rfl

/-- The first digits that are not overwritten at once. -/
def fs : List Byte := [0x46, 0x46, 0x46, 0x46]

theorem behind_high (hb : ¬b < 0x80) : behind logToken (b :: r) rem =
    behind logToken r (fs ++ highDigit b :: lowDigit b :: 0 :: rem.drop 10) := by
  have h : ¬keptInLog b := fun h => hb (lt_of_keptInLog b h)
  rw [behind, left_of_high h hb, length_word, if_neg h, if_neg hb]
  rfl

theorem length_behind_le (h : rem.length ≤ 7) : (behind logToken r rem).length ≤ 7 := by
  induction r generalizing rem with
  | nil => exact h
  | cons c r ih =>
    by_cases hc : keptInLog c
    · rw [behind_kept hc]
      exact ih (by rw [List.length_drop]; omega)
    by_cases hlt : c < 0x80
    · rw [behind_low hc hlt]
      exact ih (by rw [List.length_cons, List.length_drop]; omega)
    · rw [behind_high hlt, List.drop_eq_nil_of_le (by omega)]
      exact ih (by simp [fs])

/-- What is written behind `u` leaves what stands there visible: bytes below `0x80`, in no more
characters than there are in `u`, and no escape at the end. -/
def DigitsShown (u r : List Byte) : Prop :=
  (∀ c ∈ r, c < 0x80) ∧ encodedLength keptInLog r ≤ u.length ∧
    (r = [] → 0 ∉ u) ∧ ∀ c ∈ r.getLast?, keptInLog c

theorem encodedLength_pos (b : Byte) (r : List Byte) :
    0 < encodedLength keptInLog (b :: r) := by
  rw [encodedLength]
  split <;> omega

theorem getLast_cons_iff (b : Byte) (r : List Byte) :
    (∀ c ∈ (b :: r).getLast?, keptInLog c) ↔
      (r = [] → keptInLog b) ∧ ∀ c ∈ r.getLast?, keptInLog c := by
  cases r with
  | nil => simp
  | cons d r => simp [List.getLast?_cons_cons]

theorem digitsShown_kept {c : Byte} {u : List Byte} (hb : keptInLog b) (hu : 0 ∉ u) :
    DigitsShown (c :: u) (b :: r) ↔ DigitsShown u r := by
  rw [DigitsShown, DigitsShown, List.forall_mem_cons, and_iff_right (lt_of_keptInLog b hb),
    encodedLength, if_pos hb, List.length_cons, getLast_cons_iff, and_iff_right fun _ => hb]
  refine and_congr_right fun _ => and_congr (by omega) (and_congr_left fun _ => ?_)
  exact iff_of_true (fun h => absurd h (List.cons_ne_nil b r)) fun _ => hu

theorem digitsShown_low {u : List Byte} (hb : ¬keptInLog b) (hlt : b < 0x80) (hu : u.length = 4) :
    DigitsShown u (b :: r) ↔ DigitsShown [0] r := by
  rw [DigitsShown, DigitsShown, List.forall_mem_cons, and_iff_right hlt, encodedLength, if_neg hb,
    hu, getLast_cons_iff]
  refine and_congr_right fun _ => and_congr ?_ ?_
  · rw [List.length_singleton]
    omega
  · constructor
    · rintro ⟨-, hlast, hrest⟩
      exact ⟨fun h => absurd (hlast h) hb, hrest⟩
    · rintro ⟨hne, hrest⟩
      exact ⟨fun h => absurd h (List.cons_ne_nil b r),
        fun h => absurd List.mem_cons_self (hne h), hrest⟩

theorem not_digitsShown_low {u : List Byte} (hb : ¬keptInLog b) (hu : u.length < 4) :
    ¬DigitsShown u (b :: r) := by
  rintro ⟨-, hlength, -, hlast⟩
  rw [encodedLength, if_neg hb] at hlength
  cases r with
  | nil => exact hb (hlast b rfl)
  | cons c r =>
    have hpos := encodedLength_pos c r
    omega

theorem drop_behind {u v : List Byte} (x x' : Byte) {n : ℕ} (h : u.length < n) :
    (u ++ x :: v).drop n = (u ++ x' :: v).drop n := by
  obtain ⟨k, hk⟩ := Nat.exists_eq_add_one_of_ne_zero (Nat.sub_ne_zero_of_lt h)
  rw [List.drop_append, List.drop_append, hk]
  rfl

/-- What stands behind `u` stays where it is, or the first character of it does not matter. -/
theorem behind_cases {u : List Byte} (hu : u.length ≤ 4) (htail : 0 ∉ u.tail) (r : List Byte) :
    (DigitsShown u r ∧ ∃ u', 0 ∉ u' ∧ ∀ z, behind logToken r (u ++ z) = u' ++ z) ∨
      ¬DigitsShown u r ∧ ∀ x x' v, (behind logToken r (u ++ x :: v)).takeWhile (· ≠ 0) =
        (behind logToken r (u ++ x' :: v)).takeWhile (· ≠ 0) := by
  induction r generalizing u with
  | nil =>
    by_cases hzero : 0 ∈ u
    · refine Or.inr ⟨fun h => h.2.2.1 rfl hzero, fun x x' v => ?_⟩
      obtain ⟨c, u, rfl⟩ := List.exists_cons_of_ne_nil (List.ne_nil_of_mem hzero)
      rcases List.mem_cons.mp hzero with rfl | hin
      · rw [behind, behind, List.cons_append, takeWhile_ne_cons, List.cons_append,
          takeWhile_ne_cons]
      · exact absurd hin htail
    · have hshown : DigitsShown u [] :=
        ⟨List.forall_mem_nil _, Nat.zero_le _, fun _ => hzero,
          fun c h => absurd h (Option.not_mem_none c)⟩
      exact Or.inl ⟨hshown, u, hzero, fun z => rfl⟩
  | cons b r ih =>
    by_cases hb : keptInLog b
    · simp only [behind_kept hb]
      cases u with
      | nil =>
        refine Or.inr ⟨fun h => ?_, fun x x' v => rfl⟩
        exact absurd h.2.1 (Nat.not_le.mpr (encodedLength_pos b r))
      | cons c u =>
        have hlength : u.length ≤ 4 := Nat.le_of_succ_le hu
        have hrest : 0 ∉ u.tail := fun h => htail (List.mem_of_mem_tail h)
        rw [List.tail_cons] at htail
        rw [digitsShown_kept hb htail]
        exact ih hlength hrest
    by_cases hlt : b < 0x80
    · simp only [behind_low hb hlt]
      rcases Nat.lt_or_eq_of_le hu with hless | hfour
      · refine Or.inr ⟨not_digitsShown_low hb hless, fun x x' v => ?_⟩
        rw [drop_behind x x' hless]
      · have hdrop : ∀ z, (u ++ z).drop 4 = z := fun z => hfour ▸ List.drop_left
        simp only [hdrop]
        rw [digitsShown_low hb hlt hfour]
        exact ih (by decide) List.not_mem_nil
    · simp only [behind_high hlt]
      refine Or.inr ⟨fun h => hlt (h.1 b List.mem_cons_self), fun x x' v => ?_⟩
      rw [drop_behind x x' (by omega)]

end Behind

/-! ## The clipboard -/

section Clipboard

variable {b : Byte} {s t before more : List Byte}

theorem logged_percentEncode (s : List Byte) : logged (percentEncode s) =
    printed logToken s ++ (behind logToken s []).takeWhile (· ≠ 0) :=
  logged_eq (zero_notMem_printed fun _ _ hb => (ne_of_keptInLog hb).2.1)

theorem prefixFree_logToken : PrefixFree logToken := by
  refine prefixFree_of_mark percent 2 fun b => ?_
  by_cases h : keptInLog b
  · exact Or.inl ⟨_, kept_of_kept h, (ne_of_keptInLog h).1⟩
  by_cases hb : b < 0x80
  · exact Or.inr ⟨_, kept_of_lt h hb, rfl⟩
  · exact Or.inr ⟨_, kept_of_high h hb, rfl⟩

theorem eq_of_digits {c : Byte} (hhigh : highDigit b = highDigit c)
    (hlow : lowDigit b = lowDigit c) : b = c := by
  rw [← strtolHex_digits b, hhigh, hlow, strtolHex_digits]

/-- The bytes from `0x80` on begin in the same way. -/
theorem kept_high (hb : ¬b < 0x80) : (logToken b).kept = [percent, 0x46, 0x46] :=
  kept_of_high (fun h => hb (lt_of_keptInLog b h)) hb

/-- The others are told from all bytes. -/
theorem eq_of_kept_eq {c : Byte} (hb : b < 0x80) (h : (logToken c).kept = (logToken b).kept) :
    c = b := by
  by_cases hkb : keptInLog b <;> by_cases hkc : keptInLog c
  · rw [kept_of_kept hkb, kept_of_kept hkc] at h
    exact (List.cons.inj h).1
  · have hlength := congrArg List.length h
    rw [Token.length_kept, Token.length_kept, width_percentToken, width_percentToken, if_neg hkc,
      if_pos hkb] at hlength
    exact absurd hlength (by decide)
  · have hlength := congrArg List.length h
    rw [Token.length_kept, Token.length_kept, width_percentToken, width_percentToken, if_pos hkc,
      if_neg hkb] at hlength
    exact absurd hlength (by decide)
  rw [kept_of_lt hkb hb] at h
  by_cases hc : c < 0x80
  · rw [kept_of_lt hkc hc] at h
    simp only [List.cons.injEq, true_and, and_true] at h
    exact eq_of_digits h.1 h.2
  · rw [kept_high hc] at h
    simp only [List.cons.injEq, true_and, and_true] at h
    have hff : b = 0xFF := by
      rw [← strtolHex_digits b, ← h.1, ← h.2]
      decide
    exact absurd (hff ▸ hb) (by decide)

theorem eq_of_map_kept (hs : ∀ c ∈ s, c < 0x80)
    (h : (t.map fun c => (logToken c).kept) = s.map fun c => (logToken c).kept) : t = s := by
  induction s generalizing t with
  | nil => exact List.map_eq_nil_iff.mp h
  | cons b s ih =>
    obtain ⟨c, t, rfl, hc, ht⟩ := List.map_eq_cons_iff.mp h
    rw [List.forall_mem_cons] at hs
    rw [eq_of_kept_eq hs.1 hc, ih hs.2 ht]

/-- What the other string is like if there is a single byte from `0x80` on in this one. -/
theorem split_of_map_kept (hbefore : ∀ c ∈ before, c < 0x80) (hb : ¬b < 0x80)
    (hmore : ∀ c ∈ more, c < 0x80) (h : (t.map fun c => (logToken c).kept) =
      (before ++ b :: more).map fun c => (logToken c).kept) :
    ∃ c, ¬c < 0x80 ∧ t = before ++ c :: more := by
  rw [List.map_append, List.map_cons] at h
  obtain ⟨t₁, t₂, rfl, h₁, h₂⟩ := List.map_eq_append_iff.mp h
  obtain ⟨c, t₃, rfl, hc, h₃⟩ := List.map_eq_cons_iff.mp h₂
  refine ⟨c, fun hlt => ?_, by rw [eq_of_map_kept hbefore h₁, eq_of_map_kept hmore h₃]⟩
  exact hb (eq_of_kept_eq hlt hc.symm ▸ hlt)

theorem behind_split (hb : ¬b < 0x80) : behind logToken (before ++ b :: more) [] =
    behind logToken more (fs ++ [highDigit b, lowDigit b, 0]) := by
  have hlength : (behind logToken before []).length ≤ 7 := length_behind_le (Nat.zero_le 7)
  rw [behind_append, behind_high hb, List.drop_eq_nil_of_le (by omega)]

/-- Where the digits are overwritten, the text does not tell these bytes from each other. -/
theorem logged_of_not_shown {c : Byte} (hb : ¬b < 0x80) (hc : ¬c < 0x80)
    (hdigit : lowDigit c = lowDigit b) (h : ¬DigitsShown fs more) :
    logged (percentEncode (before ++ c :: more)) =
      logged (percentEncode (before ++ b :: more)) := by
  have hsame := ((behind_cases (u := fs) (by decide) (by decide) more).resolve_left
    fun hshown => h hshown.1).2
  rw [logged_percentEncode, logged_percentEncode, printed_append, printed_append, printed_cons,
    printed_cons, kept_high hb, kept_high hc, behind_split hb, behind_split hc, hdigit,
    hsame (highDigit c) (highDigit b)]

/-- Where they are not, it does. -/
theorem logged_of_shown {c : Byte} (hb : ¬b < 0x80) (hc : ¬c < 0x80) (h : DigitsShown fs more)
    (heq : (behind logToken (before ++ c :: more) []).takeWhile (· ≠ 0) =
      (behind logToken (before ++ b :: more) []).takeWhile (· ≠ 0)) : c = b := by
  obtain ⟨-, u, hu, hbehind⟩ := (behind_cases (u := fs) (by decide) (by decide) more).resolve_right
    fun hnot => hnot.1 h
  have hdigits : ∀ d : Byte, (u ++ [highDigit d, lowDigit d, 0]).takeWhile (· ≠ 0) =
      u ++ [highDigit d, lowDigit d] := by
    intro d
    obtain ⟨hhigh, hlow⟩ := digits_ne_zero d
    have hnot : 0 ∉ [highDigit d, lowDigit d] := by
      rw [List.mem_cons, List.mem_singleton, not_or]
      exact ⟨hhigh.symm, hlow.symm⟩
    have hsplit : [highDigit d, lowDigit d, 0] = [highDigit d, lowDigit d] ++ [0] := rfl
    rw [takeWhile_ne_append hu, hsplit, takeWhile_ne_append hnot, takeWhile_ne_cons,
      List.append_nil]
  rw [behind_split hb, behind_split hc, hbehind, hbehind, hdigits, hdigits] at heq
  have hlast := List.append_cancel_left heq
  simp only [List.cons.injEq, and_true] at hlast
  exact eq_of_digits hlast.1 hlast.2

theorem first_high (s : List Byte) : (∀ c ∈ s, c < 0x80) ∨
    ∃ before b more, s = before ++ b :: more ∧ (∀ c ∈ before, c < 0x80) ∧ ¬b < 0x80 := by
  induction s with
  | nil => exact Or.inl nofun
  | cons a s ih =>
    by_cases ha : a < 0x80
    · rcases ih with hlow | ⟨before, b, more, rfl, hbefore, hb⟩
      · exact Or.inl (List.forall_mem_cons.mpr ⟨ha, hlow⟩)
      · exact Or.inr ⟨a :: before, b, more, rfl, List.forall_mem_cons.mpr ⟨ha, hbefore⟩, hb⟩
    · exact Or.inr ⟨[], a, s, rfl, nofun, ha⟩

/-- There is no byte from `0x80` on, or a single one that is far enough from the end of the
buffer, with so little behind it that its digits are kept. -/
def Determined (s : List Byte) : Prop :=
  (∀ c ∈ s, c < 0x80) ∨ ∃ before b more, s = before ++ b :: more ∧
    (∀ c ∈ before, c < 0x80) ∧ ¬b < 0x80 ∧ (∀ c ∈ more, c < 0x80) ∧
      encodedLength keptInLog before + 9 ≤ 3 * s.length ∧
        encodedLength keptInLog more ≤ 4 ∧ ∀ c ∈ more.getLast?, keptInLog c

/-- Another byte with the same last digit. -/
def otherHigh (b : Byte) : Byte := if b < 0xF0 then b + 0x10 else b - 0x10

theorem otherHigh_spec (b : Byte) (h : ¬b < 0x80) :
    ¬otherHigh b < 0x80 ∧ otherHigh b ≠ b ∧ lowDigit (otherHigh b) = lowDigit b := by
  have hdigit : (otherHigh b).toNat % 16 = b.toNat % 16 := by
    unfold otherHigh
    split <;> bv_omega
  refine ⟨?_, ?_, congrArg hexDigitOf hdigit⟩ <;> unfold otherHigh <;> split <;> bv_omega

theorem digitsShown_iff : DigitsShown fs more ↔ (∀ c ∈ more, c < 0x80) ∧
    encodedLength keptInLog more ≤ 4 ∧ ∀ c ∈ more.getLast?, keptInLog c := by
  have hfs : more = [] → 0 ∉ fs := fun _ => by decide
  rw [DigitsShown, and_iff_right hfs]
  rfl

theorem split_unique {before' more' : List Byte} {c : Byte} (hbefore : ∀ c ∈ before, c < 0x80)
    (hmore : ∀ c ∈ more, c < 0x80) (hc : ¬c < 0x80)
    (h : before ++ b :: more = before' ++ c :: more') : before' = before := by
  rcases List.append_eq_append_iff.mp h with ⟨as, rfl, has⟩ | ⟨as, rfl, has⟩
  · cases as with
    | nil => rw [List.append_nil]
    | cons d as =>
      have hin : c ∈ more := by
        rw [(List.cons.inj has).2]
        exact List.mem_append_right as List.mem_cons_self
      exact absurd (hmore c hin) hc
  · cases as with
    | nil => rw [List.append_nil]
    | cons d as =>
      have hin : c ∈ before' ++ d :: as := by
        rw [(List.cons.inj has).1]
        exact List.mem_append_right before' List.mem_cons_self
      exact absurd (hbefore c hin) hc

/-- **The log determines what is logged.** For the clipboard this is so, and nothing is written
outside of the buffer, exactly if there is no byte from `0x80` on, or a single one whose digits
are kept and fit. For what has been typed it always is. -/
theorem clipboard_log_iff (s : List Byte) (u : List (BitVec 16)) :
    (((percentEncode s).length ≤ 3 * s.length + 1 ∧
        ∀ t : List Byte, t.length = s.length →
          logged (percentEncode t) = logged (percentEncode s) → t = s) ↔ Determined s) ∧
      (percentEncode4 u).length ≤ 5 * u.length + 1 ∧
        ∀ v : List (BitVec 16), v.length = u.length →
          logged (percentEncode4 v) = logged (percentEncode4 u) → v = u := by
  refine ⟨?_, length_percentEncode4 u, fun v => percentEncode4_injective⟩
  have hlength : (percentEncode s).length ≤ 3 * s.length + 1 ↔ _ :=
    length_write_le lt_of_keptInLog s
  rw [hlength]
  constructor
  · rintro ⟨hbound, hinj⟩
    rcases first_high s with hlow | ⟨before, b, more, rfl, hbefore, hb⟩
    · exact Or.inl hlow
    obtain ⟨hother, hne, hdigit⟩ := otherHigh_spec b hb
    have hshown : DigitsShown fs more := by
      by_contra hnot
      have hsame := hinj (before ++ otherHigh b :: more) (by simp)
        (logged_of_not_shown hb hother hdigit hnot)
      exact hne (List.cons.inj (List.append_cancel_left hsame)).1
    obtain ⟨hmore, hlength, hlast⟩ := digitsShown_iff.mp hshown
    exact Or.inr ⟨before, b, more, rfl, hbefore, hb, hmore, hbound before b more rfl hb, hlength,
      hlast⟩
  · rintro (hlow | ⟨before, b, more, rfl, hbefore, hb, hmore, hbound, hlength, hlast⟩)
    · refine ⟨fun before b more hs hb => ?_, fun t hlength heq => ?_⟩
      · subst hs
        exact absurd (hlow b (List.mem_append_right _ List.mem_cons_self)) hb
      · rw [logged_percentEncode, logged_percentEncode] at heq
        exact eq_of_map_kept hlow (prefixFree_logToken.printed_append hlength heq).1
    · refine ⟨fun before' c more' hs hc => ?_, fun t ht heq => ?_⟩
      · rw [split_unique hbefore hmore hc hs]
        exact hbound
      · rw [logged_percentEncode, logged_percentEncode] at heq
        obtain ⟨hmap, hbehind⟩ := prefixFree_logToken.printed_append ht heq
        obtain ⟨c, hc, rfl⟩ := split_of_map_kept hbefore hb hmore hmap
        rw [logged_of_shown hb hc (digitsShown_iff.mpr ⟨hmore, hlength, hlast⟩) hbehind]

/-- Ten bytes for one, where there is room for four, and a byte that is not told from another
one. -/
theorem clipboard_log_lost :
    (percentEncode [0x80]).length = 10 ∧
      logged (percentEncode (0x80 :: ascii "abcdef")) =
        logged (percentEncode (0x81 :: ascii "abcdef")) ∧
      logged (percentEncode (0x80 :: ascii "abcdef")) = ascii "%FFabcdef" := by
  decide

end Clipboard

end KasmVNC.Rfb
