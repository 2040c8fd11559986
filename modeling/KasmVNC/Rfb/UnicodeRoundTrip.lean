import KasmVNC.Rfb.Unicode

/-!
# UTF-8 and UTF-16

A well-formed string is a list of characters, written in one of the two forms. Each form is
read as it is written, so a well-formed string is converted to the other form and back.

A surrogate that is not one of a pair becomes U+FFFD. What follows a low one is skipped as long
as one bit of it is set. That bit is set in every low surrogate, and in many characters.
-/

namespace KasmVNC.Rfb

open KasmVNC.Lib

/-! ## The two forms -/

def utf8Char (c : Char) : List Byte := (String.utf8EncodeChar c).map UInt8.toBitVec

def utf16Char (c : Char) : List Wchar :=
  if c.toNat < 0x10000 then [BitVec.ofNat 16 c.toNat]
  else
    [BitVec.ofNat 16 (0xd800 + (c.toNat - 0x10000) / 0x400),
      BitVec.ofNat 16 (0xdc00 + (c.toNat - 0x10000) % 0x400)]

def utf8 (cs : List Char) : List Byte := cs.flatMap utf8Char

def utf16 (cs : List Char) : List Wchar := cs.flatMap utf16Char

theorem char_range (c : Char) : c.toNat < 0xd800 ∨ 0xe000 ≤ c.toNat ∧ c.toNat < 0x110000 := by
  rcases c.valid with h | h
  · exact Or.inl h
  · exact Or.inr ⟨h.1, h.2⟩

theorem char_lt (c : Char) : c.toNat < 0x110000 := by
  have h := char_range c
  omega

theorem toNat_injective {c d : Char} (h : c.toNat = d.toNat) : c = d :=
  Char.toNat_inj.mp h

/-! ## Bits of UTF-8 -/

theorem and_low_bits (n k : ℕ) : n &&& (2 ^ k - 1) = n % 2 ^ k := Nat.and_two_pow_sub_one_eq_mod n k

/-- A mask of the highest bits cuts off the others. -/
theorem toNat_and_high {k : ℕ} {mask : Byte} (hmask : mask = BitVec.allOnes 8 <<< k) (b : Byte) :
    (b &&& mask).toNat = b.toNat / 2 ^ k * 2 ^ k := by
  have hshift : b &&& mask = b >>> k <<< k := by
    subst hmask
    ext i hi
    simp only [BitVec.getElem_and, BitVec.getElem_shiftLeft, BitVec.getElem_allOnes]
    by_cases hik : i < k
    · simp [hik]
    · have hki : k + (i - k) = i := by omega
      simp [hik, hki, hi]
  have hle : b.toNat / 2 ^ k * 2 ^ k < 2 ^ 8 :=
    Nat.lt_of_le_of_lt (Nat.div_mul_le_self _ _) b.isLt
  rw [hshift, BitVec.toNat_shiftLeft, BitVec.toNat_ushiftRight, Nat.shiftRight_eq_div_pow,
    Nat.shiftLeft_eq, Nat.mod_eq_of_lt hle]

theorem high_masks (b : Byte) : (b &&& 0x80).toNat = b.toNat / 128 * 128 ∧
    (b &&& 0xc0).toNat = b.toNat / 64 * 64 ∧ (b &&& 0xe0).toNat = b.toNat / 32 * 32 ∧
      (b &&& 0xf0).toNat = b.toNat / 16 * 16 ∧ (b &&& 0xf8).toNat = b.toNat / 8 * 8 :=
  ⟨toNat_and_high (k := 7) (by decide) b, toNat_and_high (k := 6) (by decide) b,
    toNat_and_high (k := 5) (by decide) b, toNat_and_high (k := 4) (by decide) b,
    toNat_and_high (k := 3) (by decide) b⟩

theorem low_masks (b : Byte) : (b &&& 0x3f).toNat = b.toNat % 64 ∧
    (b &&& 0x1f).toNat = b.toNat % 32 ∧ (b &&& 0x0f).toNat = b.toNat % 16 ∧
      (b &&& 0x07).toNat = b.toNat % 8 := by
  simp only [BitVec.toNat_and]
  exact ⟨and_low_bits _ 6, and_low_bits _ 5, and_low_bits _ 4, and_low_bits _ 3⟩

theorem toNat_lead {x m : ℕ} (h : x + m < 256) : (BitVec.ofNat 8 (x + m)).toNat = x + m := by
  rw [BitVec.toNat_ofNat, Nat.mod_eq_of_lt h]

theorem or_lead {x k a : ℕ} (hx : x < 2 ^ k) : 2 ^ k * a ||| x = x + 2 ^ k * a := by
  rw [← Nat.two_pow_add_eq_or_of_lt hx, Nat.add_comm]

/-- A byte that continues a character, and the six bits in it. -/
theorem tail_byte (x : ℕ) (hx : x < 64) :
    BitVec.ofNat 8 (0x80 ||| x) = BitVec.ofNat 8 (x + 0x80) ∧
      ContinuesChar (BitVec.ofNat 8 (x + 0x80)) ∧
        (BitVec.ofNat 8 (x + 0x80) &&& 0x3f).toNat = x := by
  refine ⟨congrArg _ (or_lead (k := 6) (a := 2) hx), ?_⟩
  have hval := toNat_lead (x := x) (m := 0x80) (by omega)
  simp only [ContinuesChar, ← BitVec.toNat_inj, high_masks, low_masks, hval,
    BitVec.reduceToNat]
  omega

/-- The first byte of one. -/
theorem lead_one (x : ℕ) (hx : x < 128) :
    BitVec.ofNat 8 x &&& 0x80 = 0 ∧ (BitVec.ofNat 8 x).toNat = x := by
  have hval : (BitVec.ofNat 8 x).toNat = x := toNat_lead (m := 0) (by omega)
  simp only [← BitVec.toNat_inj, high_masks]
  rw [hval]
  exact ⟨by simpa using hx, rfl⟩

/-- The first byte of two. -/
theorem lead_two (x : ℕ) (hx : x < 32) :
    BitVec.ofNat 8 (0xc0 ||| x) = BitVec.ofNat 8 (x + 0xc0) ∧
      BitVec.ofNat 8 (x + 0xc0) &&& 0x80 ≠ 0 ∧ BitVec.ofNat 8 (x + 0xc0) &&& 0xe0 = 0xc0 ∧
        (BitVec.ofNat 8 (x + 0xc0) &&& 0x1f).toNat = x := by
  refine ⟨congrArg _ (or_lead (k := 5) (a := 6) hx), ?_⟩
  have hval := toNat_lead (x := x) (m := 0xc0) (by omega)
  simp only [ne_eq, ← BitVec.toNat_inj, high_masks, low_masks, hval, BitVec.reduceToNat]
  omega

/-- The first byte of three. -/
theorem lead_three (x : ℕ) (hx : x < 16) :
    BitVec.ofNat 8 (0xe0 ||| x) = BitVec.ofNat 8 (x + 0xe0) ∧
      BitVec.ofNat 8 (x + 0xe0) &&& 0x80 ≠ 0 ∧ BitVec.ofNat 8 (x + 0xe0) &&& 0xe0 ≠ 0xc0 ∧
        BitVec.ofNat 8 (x + 0xe0) &&& 0xf0 = 0xe0 ∧
          (BitVec.ofNat 8 (x + 0xe0) &&& 0x0f).toNat = x := by
  refine ⟨congrArg _ (or_lead (k := 4) (a := 14) hx), ?_⟩
  have hval := toNat_lead (x := x) (m := 0xe0) (by omega)
  simp only [ne_eq, ← BitVec.toNat_inj, high_masks, low_masks, hval, BitVec.reduceToNat]
  omega

/-- The first byte of four. -/
theorem lead_four (x : ℕ) (hx : x < 8) :
    BitVec.ofNat 8 (0xf0 ||| x) = BitVec.ofNat 8 (x + 0xf0) ∧
      BitVec.ofNat 8 (x + 0xf0) &&& 0x80 ≠ 0 ∧ BitVec.ofNat 8 (x + 0xf0) &&& 0xe0 ≠ 0xc0 ∧
        BitVec.ofNat 8 (x + 0xf0) &&& 0xf0 ≠ 0xe0 ∧ BitVec.ofNat 8 (x + 0xf0) &&& 0xf8 = 0xf0 ∧
          (BitVec.ofNat 8 (x + 0xf0) &&& 0x07).toNat = x := by
  refine ⟨congrArg _ (or_lead (k := 3) (a := 30) hx), ?_⟩
  have hval := toNat_lead (x := x) (m := 0xf0) (by omega)
  simp only [ne_eq, ← BitVec.toNat_inj, high_masks, low_masks, hval, BitVec.reduceToNat]
  omega

/-- One more byte of a character. -/
theorem utf8Tail_byte (count dst consumed : ℕ) {x : ℕ} (hx : x < 64) (src : List Byte) :
    utf8Tail (count + 1) dst consumed (BitVec.ofNat 8 (x + 0x80) :: src) =
      utf8Tail count (dst * 64 + x) (consumed + 1) src := by
  obtain ⟨-, hcont, hbits⟩ := tail_byte x hx
  have hor : dst <<< 6 ||| x = dst * 64 + x := by
    rw [← Nat.shiftLeft_add_eq_or_of_lt (by simpa using hx), Nat.shiftLeft_eq]
  rw [utf8Tail, if_pos hcont, hbits, hor]

/-- The bytes of the numbers below `0x110000`, as they are written. -/
theorem utf8Char_eq (c : Char) : utf8Char c =
    if c.toNat < 0x80 then [BitVec.ofNat 8 c.toNat]
    else if c.toNat < 0x800 then
      [BitVec.ofNat 8 (c.toNat / 64 + 0xc0), BitVec.ofNat 8 (c.toNat % 64 + 0x80)]
    else if c.toNat < 0x10000 then
      [BitVec.ofNat 8 (c.toNat / 4096 + 0xe0), BitVec.ofNat 8 (c.toNat / 64 % 64 + 0x80),
        BitVec.ofNat 8 (c.toNat % 64 + 0x80)]
    else
      [BitVec.ofNat 8 (c.toNat / 262144 + 0xf0), BitVec.ofNat 8 (c.toNat / 4096 % 64 + 0x80),
        BitVec.ofNat 8 (c.toNat / 64 % 64 + 0x80), BitVec.ofNat 8 (c.toNat % 64 + 0x80)] := by
  have hlt := char_lt c
  have hval : c.val.toNat = c.toNat := rfl
  rw [utf8Char, String.utf8EncodeChar]
  simp only [hval]
  by_cases h1 : c.toNat < 0x80
  · rw [if_pos (by omega), if_pos h1]
    rfl
  rw [if_neg (by omega), if_neg h1]
  by_cases h2 : c.toNat < 0x800
  · rw [if_pos (by omega), if_pos h2, Nat.mod_eq_of_lt (a := c.toNat / 64) (by omega)]
    rfl
  rw [if_neg (by omega), if_neg h2]
  by_cases h3 : c.toNat < 0x10000
  · rw [if_pos (by omega), if_pos h3, Nat.mod_eq_of_lt (a := c.toNat / 4096) (by omega)]
    rfl
  · rw [if_neg (by omega), if_neg h3, Nat.mod_eq_of_lt (a := c.toNat / 262144) (by omega)]
    rfl

theorem shift_low (n k : ℕ) : n >>> k &&& 0x3f = n / 2 ^ k % 64 := by
  rw [Nat.shiftRight_eq_div_pow]
  exact and_low_bits _ 6

theorem threeBytes_eq {n : ℕ} (h : n < 0x10000) : threeBytes n =
    [BitVec.ofNat 8 (n / 4096 + 0xe0), BitVec.ofNat 8 (n / 64 % 64 + 0x80),
      BitVec.ofNat 8 (n % 64 + 0x80)] := by
  have hlead : n >>> 12 = n / 4096 := Nat.shiftRight_eq_div_pow n 12
  have hmiddle : n >>> 6 &&& 0x3f = n / 64 % 64 := shift_low n 6
  have hlow : n &&& 0x3f = n % 64 := and_low_bits n 6
  rw [threeBytes, hlead, hmiddle, hlow, (lead_three _ (by omega)).1,
    (tail_byte _ (Nat.mod_lt _ (by decide))).1, (tail_byte _ (Nat.mod_lt _ (by decide))).1]

/-- `ucs4ToUTF8` writes characters in UTF-8. -/
theorem ucs4ToUTF8_char (c : Char) : ucs4ToUTF8 c.toNat = utf8Char c := by
  have hlt := char_lt c
  rw [utf8Char_eq]
  generalize c.toNat = n at hlt
  have hlow : n &&& 0x3f = n % 64 := and_low_bits n 6
  have hmod : ∀ m : ℕ, m % 64 < 64 := fun m => Nat.mod_lt m (by decide)
  rw [ucs4ToUTF8]
  split_ifs with h1 h2 h3
  · rfl
  · have hlead : n >>> 6 = n / 64 := Nat.shiftRight_eq_div_pow n 6
    rw [hlead, hlow, (lead_two _ (by omega)).1, (tail_byte _ (hmod n)).1]
  · exact threeBytes_eq h3
  · have hlead : n >>> 18 = n / 262144 := Nat.shiftRight_eq_div_pow n 18
    have hhigh : n >>> 12 &&& 0x3f = n / 4096 % 64 := shift_low n 12
    have hmiddle : n >>> 6 &&& 0x3f = n / 64 % 64 := shift_low n 6
    rw [hlead, hhigh, hmiddle, hlow, (lead_four _ (by omega)).1, (tail_byte _ (hmod _)).1,
      (tail_byte _ (hmod _)).1, (tail_byte _ (hmod _)).1]

/-- `utf8ToUCS4` reads a character as it is written. -/
theorem utf8ToUCS4_char (c : Char) (rest : List Byte) :
    utf8ToUCS4 (utf8Char c ++ rest) = (c.toNat, (utf8Char c).length) := by
  have hlt := char_lt c
  have hmod : ∀ m : ℕ, m % 64 < 64 := fun m => Nat.mod_lt m (by decide)
  rw [utf8Char_eq]
  generalize c.toNat = n at hlt
  split_ifs with h1 h2 h3
  · obtain ⟨hfirst, hbits⟩ := lead_one n h1
    rw [List.cons_append, List.nil_append, utf8ToUCS4, if_pos hfirst, hbits]
    rfl
  · obtain ⟨-, h80, he0, hbits⟩ := lead_two (n / 64) (by omega)
    rw [List.cons_append, List.cons_append, List.nil_append, utf8ToUCS4, if_neg h80, if_pos he0,
      hbits, utf8Tail_byte _ _ _ (hmod n), utf8Tail]
    exact Prod.ext (by dsimp only; omega) rfl
  · obtain ⟨-, h80, he0, hf0, hbits⟩ := lead_three (n / 4096) (by omega)
    simp only [List.cons_append, List.nil_append]
    rw [utf8ToUCS4, if_neg h80, if_neg he0, if_pos hf0, hbits, utf8Tail_byte _ _ _ (hmod _),
      utf8Tail_byte _ _ _ (hmod n), utf8Tail]
    exact Prod.ext (by dsimp only; omega) rfl
  · obtain ⟨-, h80, he0, hf0, hf8, hbits⟩ := lead_four (n / 262144) (by omega)
    simp only [List.cons_append, List.nil_append]
    rw [utf8ToUCS4, if_neg h80, if_neg he0, if_neg hf0, if_pos hf8, hbits,
      utf8Tail_byte _ _ _ (hmod _), utf8Tail_byte _ _ _ (hmod _), utf8Tail_byte _ _ _ (hmod n),
      utf8Tail]
    exact Prod.ext (by dsimp only; omega) rfl

/-! ## Surrogates -/

/-- The second unit of a pair. -/
def IsLow (u : Wchar) : Prop := 0xdc00 ≤ u.toNat ∧ u.toNat < 0xe000

/-- The first unit of a pair. -/
def IsHigh (u : Wchar) : Prop := 0xd800 ≤ u.toNat ∧ u.toNat < 0xdc00

instance (u : Wchar) : Decidable (IsLow u) := inferInstanceAs (Decidable (_ ∧ _))

instance (u : Wchar) : Decidable (IsHigh u) := inferInstanceAs (Decidable (_ ∧ _))

/-- A unit is made of six bits, which tell what it is, and ten. -/
theorem and_high (u : BitVec (6 + 10)) (mask : BitVec 6) :
    u &&& (mask ++ 0#10) = (u.extractLsb' 10 6 &&& mask) ++ 0#10 := by
  ext i hi
  simp only [BitVec.getElem_and, BitVec.getElem_append, BitVec.getElem_extractLsb',
    BitVec.getElem_zero]
  split
  · rw [Bool.and_false]
  · next h =>
      rw [Nat.add_sub_cancel' (Nat.le_of_not_lt h), BitVec.getLsbD_eq_getElem hi]

theorem toNat_high (u : Wchar) : (u.extractLsb' 10 6).toNat = u.toNat / 1024 := by
  have hlt := u.isLt
  rw [BitVec.extractLsb'_toNat, Nat.shiftRight_eq_div_pow]
  omega

theorem append_eq_iff (h h' : BitVec 6) : h ++ 0#10 = h' ++ 0#10 ↔ h = h' := by
  rw [← BitVec.toNat_inj, ← BitVec.toNat_inj, BitVec.toNat_append, BitVec.toNat_append]
  simp [Nat.shiftLeft_eq]

theorem append_eq_zero_iff (h : BitVec 6) : h ++ 0#10 = 0#16 ↔ h = 0 := append_eq_iff h 0

theorem append_eq_low_iff (h : BitVec 6) : h ++ 0#10 = 0xdc00#16 ↔ h = 0x37 :=
  append_eq_iff h 0x37

theorem eq_of_toNat {h : BitVec 6} {n : ℕ} (hn : n < 64) : h = BitVec.ofNat 6 n ↔ h.toNat = n := by
  rw [← BitVec.toNat_inj, BitVec.toNat_ofNat, Nat.mod_eq_of_lt hn]

/-- The mask of `utf16ToUCS4` finds the low surrogates. -/
theorem and_mask_iff (u : Wchar) : u &&& 0xfc00 = 0xdc00 ↔ IsLow u := by
  have hmask : u &&& 0xfc00 = (u.extractLsb' 10 6 &&& 0x3f#6) ++ 0#10 := and_high u 0x3f#6
  have hall : u.extractLsb' 10 6 &&& 0x3f#6 = u.extractLsb' 10 6 := BitVec.and_allOnes
  have hlt := u.isLt
  rw [hmask, hall]
  refine (append_eq_low_iff _).trans ((eq_of_toNat (n := 0x37) (by decide)).trans ?_)
  rw [toNat_high, IsLow]
  omega

theorem hasLowBit_iff (u : Wchar) : HasLowBit u ↔ u.toNat / 1024 % 2 = 1 := by
  have hmask : u &&& 0x0400 = (u.extractLsb' 10 6 &&& 1#6) ++ 0#10 := and_high u 1#6
  have hbit : (u.extractLsb' 10 6) &&& 1#6 ≠ 0 ↔ (u.extractLsb' 10 6).toNat % 2 = 1 := by
    rw [Ne, ← BitVec.toNat_inj, BitVec.toNat_and]
    simp
  rw [HasLowBit, hmask, ← toNat_high, ← hbit]
  exact not_congr (append_eq_zero_iff _)

theorem IsLow.hasLowBit {u : Wchar} (h : IsLow u) : HasLowBit u := by
  rw [hasLowBit_iff]
  obtain ⟨hle, hlt⟩ := h
  omega

theorem IsHigh.not_hasLowBit {u : Wchar} (h : IsHigh u) : ¬HasLowBit u := by
  rw [hasLowBit_iff]
  obtain ⟨hle, hlt⟩ := h
  omega

theorem IsHigh.not_isLow {u : Wchar} (h : IsHigh u) : ¬IsLow u :=
  fun hlow => absurd h.2 (Nat.not_lt.mpr hlow.1)

theorem toNat_ten (u : Wchar) : (u &&& 0x3ff).toNat = u.toNat % 1024 := by
  rw [BitVec.toNat_and]
  exact and_low_bits u.toNat 10

/-- A bit pattern with ten free bits. -/
theorem or_ten {n : ℕ} (base : ℕ) (hn : n < 1024) : base * 1024 ||| n = base * 1024 + n := by
  have hor := Nat.shiftLeft_add_eq_or_of_lt (i := 10) (by simpa using hn) base
  rw [Nat.shiftLeft_eq] at hor
  exact hor.symm

/-- The test for a unit that is a character by itself. -/
theorem unit_test (u : Wchar) : (u < 0xd800 ∨ u ≥ 0xe000) ↔ ¬IsLow u ∧ ¬IsHigh u := by
  have hlt : u < 0xd800 ↔ u.toNat < 0xd800 := Iff.rfl
  have hge : u ≥ 0xe000 ↔ 0xe000 ≤ u.toNat := Iff.rfl
  rw [hlt, hge, IsLow, IsHigh]
  omega

variable {u v : Wchar} {src : List Wchar}

theorem utf16ToUCS4_unit (hlow : ¬IsLow u) (hhigh : ¬IsHigh u) :
    utf16ToUCS4 (u :: src) = (u.toNat, 1) := by
  rw [utf16ToUCS4, if_pos ((unit_test u).mpr ⟨hlow, hhigh⟩)]

/-- A low surrogate takes with it all units behind it that have the bit. -/
theorem utf16ToUCS4_low (h : IsLow u) : utf16ToUCS4 (u :: src) =
    (replacement, (src.takeWhile fun u => HasLowBit u).length + 1) := by
  rw [utf16ToUCS4, if_neg fun hunit => ((unit_test u).mp hunit).1 h, if_pos h.hasLowBit,
    List.takeWhile_cons, if_pos (decide_eq_true h.hasLowBit), List.length_cons]

/-- What two surrogates stand for. -/
def pairValue (u v : Wchar) : ℕ := 0x10000 + (u.toNat - 0xd800) * 0x400 + (v.toNat - 0xdc00)

theorem utf16ToUCS4_pair (hu : IsHigh u) (hv : IsLow v) :
    utf16ToUCS4 (u :: v :: src) = (pairValue u v, 2) := by
  have hbits : (0x10000 + (u &&& 0x03ff).toNat <<< 10) ||| (v &&& 0x3ff).toNat = pairValue u v := by
    obtain ⟨hu1, hu2⟩ := hu
    obtain ⟨hv1, hv2⟩ := hv
    have hbase : 0x10000 + u.toNat % 1024 * 2 ^ 10 = (64 + u.toNat % 1024) * 1024 := by omega
    rw [toNat_ten, toNat_ten, Nat.shiftLeft_eq, hbase, or_ten _ (by omega)]
    unfold pairValue
    omega
  have hmask : ¬(v &&& 0xfc00 ≠ 0xdc00) := not_not.mpr ((and_mask_iff v).mpr hv)
  rw [utf16ToUCS4, if_neg fun hunit => ((unit_test u).mp hunit).2 hu, if_neg hu.not_hasLowBit,
    utf16Second, if_neg hmask, hbits]

theorem utf16ToUCS4_alone (hu : IsHigh u) (h : ∀ v ∈ src.head?, ¬IsLow v) :
    utf16ToUCS4 (u :: src) = (replacement, 1) := by
  rw [utf16ToUCS4, if_neg fun hunit => ((unit_test u).mp hunit).2 hu, if_neg hu.not_hasLowBit]
  cases src with
  | nil => rfl
  | cons v src =>
    have hmask : v &&& 0xfc00 ≠ 0xdc00 := fun hmask => h v rfl ((and_mask_iff v).mp hmask)
    rw [utf16Second, if_pos hmask]

/-- `ucs4ToUTF16` writes characters in UTF-16. -/
theorem ucs4ToUTF16_char (c : Char) : ucs4ToUTF16 c.toNat = utf16Char c := by
  have hrange := char_range c
  rw [utf16Char]
  generalize c.toNat = n at hrange
  rw [ucs4ToUTF16]
  by_cases hunit : n < 0x10000
  · rw [if_pos (by omega), if_pos hunit]
  · have hhigh : (n - 0x10000) >>> 10 &&& 0x03ff = (n - 0x10000) / 1024 := by
      have hmod : (n - 0x10000) >>> 10 &&& 0x03ff = (n - 0x10000) >>> 10 % 1024 := and_low_bits _ 10
      rw [hmod, Nat.shiftRight_eq_div_pow]
      omega
    have hlow : (n - 0x10000) &&& 0x03ff = (n - 0x10000) % 1024 := and_low_bits _ 10
    have hfirst : 0xd800 ||| (n - 0x10000) / 1024 = 0xd800 + (n - 0x10000) / 1024 :=
      or_ten 54 (by omega)
    have hsecond : 0xdc00 ||| (n - 0x10000) % 1024 = 0xdc00 + (n - 0x10000) % 1024 :=
      or_ten 55 (by omega)
    rw [if_neg (by omega), if_pos (by omega), if_neg hunit, hhigh, hlow, hfirst, hsecond]

/-- `utf16ToUCS4` reads a character as it is written. -/
theorem utf16ToUCS4_char (c : Char) (rest : List Wchar) :
    utf16ToUCS4 (utf16Char c ++ rest) = (c.toNat, (utf16Char c).length) := by
  have hrange := char_range c
  rw [utf16Char]
  generalize c.toNat = n at hrange
  split_ifs with hunit
  · have hn : (BitVec.ofNat 16 n).toNat = n := by
      rw [BitVec.toNat_ofNat]
      omega
    rw [List.cons_append, utf16ToUCS4_unit, hn]
    · rfl
    · rw [IsLow, hn]
      omega
    · rw [IsHigh, hn]
      omega
  · have hu : (BitVec.ofNat 16 (0xd800 + (n - 0x10000) / 0x400)).toNat =
        0xd800 + (n - 0x10000) / 0x400 := by
      rw [BitVec.toNat_ofNat]
      omega
    have hv : (BitVec.ofNat 16 (0xdc00 + (n - 0x10000) % 0x400)).toNat =
        0xdc00 + (n - 0x10000) % 0x400 := by
      rw [BitVec.toNat_ofNat]
      omega
    rw [List.cons_append, List.cons_append, utf16ToUCS4_pair]
    · refine Prod.ext ?_ rfl
      unfold pairValue
      omega
    · unfold IsHigh
      omega
    · unfold IsLow
      omega

/-! ## Well-formed strings -/

/-- What may stand behind a string: nothing, or its zero and anything. -/
def Terminated {w : ℕ} (tail : List (BitVec w)) : Prop := tail = [] ∨ ∃ more, tail = 0 :: more

theorem Terminated.chars {w : ℕ} {next : List (BitVec w) → ℕ × ℕ} {tail : List (BitVec w)}
    (h : Terminated tail) : Chars 0 next tail [] := by
  rcases h with rfl | ⟨more, rfl⟩
  · exact .nil
  · exact .nul more

theorem utf16Second_range (u : Wchar) (src : List Wchar) :
    0 < (utf16Second u src).2 ∧ (utf16Second u src).2 ≤ src.length + 1 := by
  cases src with
  | nil => exact ⟨Nat.one_pos, Nat.le_refl 1⟩
  | cons v src =>
    rw [utf16Second]
    split
    · exact ⟨Nat.one_pos, Nat.le_add_left 1 _⟩
    · exact ⟨Nat.two_pos, Nat.le_add_left 2 _⟩

theorem utf16ToUCS4_range (u : Wchar) (src : List Wchar) :
    0 < (utf16ToUCS4 (u :: src)).2 ∧ (utf16ToUCS4 (u :: src)).2 ≤ src.length + 1 := by
  rw [utf16ToUCS4]
  split_ifs with hunit hlow
  · exact ⟨Nat.one_pos, Nat.le_add_left 1 _⟩
  · have hle : (src.takeWhile fun u => HasLowBit u).length ≤ src.length :=
      (List.takeWhile_prefix _).length_le
    rw [List.takeWhile_cons, if_pos (decide_eq_true hlow), List.length_cons]
    exact ⟨Nat.succ_pos _, Nat.succ_le_succ hle⟩
  · exact utf16Second_range u src

theorem advances_utf16 : Advances utf16ToUCS4 where
  pos u src := (utf16ToUCS4_range u src).1
  le src := by
    cases src with
    | nil => exact Nat.zero_le 1
    | cons u src => exact Nat.le_succ_of_le (utf16ToUCS4_range u src).2

theorem toNat_ne_zero {c : Char} (h : c ≠ '\x00') : c.toNat ≠ 0 :=
  fun hzero => h (toNat_injective hzero)

theorem utf8Char_head {c : Char} (h : c ≠ '\x00') : ∃ b more, utf8Char c = b :: more ∧ b ≠ 0 := by
  have hn := toNat_ne_zero h
  have hlt := char_lt c
  rw [utf8Char_eq]
  generalize c.toNat = n at hn hlt
  split_ifs with h1 h2 h3
  · refine ⟨_, _, rfl, fun hzero => hn ?_⟩
    rw [← (lead_one n h1).2, hzero]
    rfl
  · refine ⟨_, _, rfl, fun hzero => (lead_two (n / 64) (by omega)).2.1 ?_⟩
    rw [hzero]
    rfl
  · refine ⟨_, _, rfl, fun hzero => (lead_three (n / 4096) (by omega)).2.1 ?_⟩
    rw [hzero]
    rfl
  · refine ⟨_, _, rfl, fun hzero => (lead_four (n / 262144) (by omega)).2.1 ?_⟩
    rw [hzero]
    rfl

theorem utf16Char_head {c : Char} (h : c ≠ '\x00') : ∃ u more, utf16Char c = u :: more ∧ u ≠ 0 := by
  have hn := toNat_ne_zero h
  have hlt := char_lt c
  rw [utf16Char]
  split_ifs
  · refine ⟨_, _, rfl, fun hzero => ?_⟩
    have hnat : (BitVec.ofNat 16 _).toNat = 0 := congrArg BitVec.toNat hzero
    rw [BitVec.toNat_ofNat] at hnat
    omega
  · refine ⟨_, _, rfl, fun hzero => ?_⟩
    have hnat : (BitVec.ofNat 16 _).toNat = 0 := congrArg BitVec.toNat hzero
    rw [BitVec.toNat_ofNat] at hnat
    omega

theorem flatMap_ucs4ToUTF8 (cs : List Char) : (cs.map Char.toNat).flatMap ucs4ToUTF8 = utf8 cs := by
  rw [List.flatMap_map]
  exact List.flatMap_congr fun _ _ => ucs4ToUTF8_char _

theorem flatMap_ucs4ToUTF16 (cs : List Char) :
    (cs.map Char.toNat).flatMap ucs4ToUTF16 = utf16 cs := by
  rw [List.flatMap_map]
  exact List.flatMap_congr fun _ _ => ucs4ToUTF16_char _

theorem chars_utf8 {cs : List Char} (h : '\x00' ∉ cs) {tail : List Byte} (htail : Terminated tail) :
    Chars 0 utf8ToUCS4 (utf8 cs ++ tail) (cs.map Char.toNat) :=
  chars_flatMap utf8ToUCS4_char htail.chars fun _ hc => utf8Char_head fun heq => h (heq ▸ hc)

theorem chars_utf16 {cs : List Char} (h : '\x00' ∉ cs) {tail : List Wchar}
    (htail : Terminated tail) : Chars 0 utf16ToUCS4 (utf16 cs ++ tail) (cs.map Char.toNat) :=
  chars_flatMap utf16ToUCS4_char htail.chars fun _ hc => utf16Char_head fun heq => h (heq ▸ hc)

/-- A well-formed string is converted to the other form, with a zero behind it. -/
theorem utf8ToUTF16_utf8 {cs : List Char} (h : '\x00' ∉ cs) {tail : List Byte}
    (htail : Terminated tail) : utf8ToUTF16 (utf8 cs ++ tail) = .ok (utf16 cs ++ [0]) := by
  have hconvert := (convert_chars ucs4ToUTF16 advances_utf8 (chars_utf8 h htail)).2.2
  rwa [flatMap_ucs4ToUTF16] at hconvert

theorem utf16ToUTF8_utf16 {cs : List Char} (h : '\x00' ∉ cs) {tail : List Wchar}
    (htail : Terminated tail) : utf16ToUTF8 (utf16 cs ++ tail) = .ok (utf8 cs ++ [0]) := by
  have hconvert := (convert_chars ucs4ToUTF8 advances_utf16 (chars_utf16 h htail)).2.2
  rwa [flatMap_ucs4ToUTF8] at hconvert

end KasmVNC.Rfb
