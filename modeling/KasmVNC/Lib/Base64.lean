import KasmVNC.Lib.Text
import Mathlib.Data.List.GetD
import Mathlib.Data.List.Nodup

/-!
# Base64

Three bytes become four digits of six bits each. One or two bytes at the end become two or
three digits, and padding makes up for the missing ones.
-/

namespace KasmVNC.Lib.Base64

def alphabet : List Byte :=
  ascii "ABCDEFGHIJKLMNOPQRSTUVWXYZabcdefghijklmnopqrstuvwxyz0123456789+/"

/-- `=` -/
abbrev pad : Byte := 0x3D

def digit (n : ℕ) : Byte := alphabet.getD n pad

def value (d : Byte) : Option ℕ := if d ∈ alphabet then some (alphabet.idxOf d) else none

def encode : List Byte → List Byte
  | [] => []
  | [a] => [digit (a.toNat / 4), digit (a.toNat % 4 * 16), pad, pad]
  | [a, b] =>
    let n := a.toNat * 256 + b.toNat
    [digit (n / 1024), digit (n / 16 % 64), digit (n % 16 * 4), pad]
  | a :: b :: c :: rest =>
    let n := (a.toNat * 256 + b.toNat) * 256 + c.toNat
    digit (n / 262144) :: digit (n / 4096 % 64) :: digit (n / 64 % 64) :: digit (n % 64) ::
      encode rest

/-- The number that some digits stand for. -/
def number (digits : List Byte) : Option ℕ :=
  digits.foldlM (fun n d => (value d).map fun v => n * 64 + v) 0

def decode : List Byte → Option (List Byte)
  | [] => some []
  | [w, x, y, z] =>
    if y = pad ∧ z = pad then
      (number [w, x]).map fun n => [BitVec.ofNat 8 (n / 16)]
    else if z = pad then
      (number [w, x, y]).map fun n => [BitVec.ofNat 8 (n / 1024), BitVec.ofNat 8 (n / 4)]
    else
      (number [w, x, y, z]).map fun n =>
        [BitVec.ofNat 8 (n / 65536), BitVec.ofNat 8 (n / 256), BitVec.ofNat 8 n]
  | w :: x :: y :: z :: rest =>
    (number [w, x, y, z]).bind fun n => (decode rest).map fun bytes =>
      BitVec.ofNat 8 (n / 65536) :: BitVec.ofNat 8 (n / 256) :: BitVec.ofNat 8 n :: bytes
  | _ => none

theorem length_alphabet : alphabet.length = 64 := by
  rw [alphabet, ascii_ofList]
  rfl

theorem nodup_alphabet : alphabet.Nodup := by
  have hcodes : alphabet.map BitVec.toNat =
      List.range' 65 26 ++ (List.range' 97 26 ++ (List.range' 48 10 ++ [43, 47])) := by
    rw [alphabet, ascii_ofList, List.map_map]
    decide
  refine List.Nodup.of_map BitVec.toNat (hcodes ▸ ?_)
  -- the capital letters, the small ones and the figures are apart
  refine (List.nodup_range' 1 Nat.one_pos).append ((List.nodup_range' 1 Nat.one_pos).append
    ((List.nodup_range' 1 Nat.one_pos).append (by decide) ?_) ?_) ?_ <;> intro a hleft hright
  all_goals
    simp only [List.mem_append, List.mem_range'_1, List.mem_cons, List.not_mem_nil,
      or_false] at hleft hright
    omega

theorem pad_notMem_alphabet : pad ∉ alphabet := by
  rw [alphabet, ascii_ofList]
  decide

/-- A digit is the entry of the alphabet. -/
theorem digit_eq {n : ℕ} (h : n < alphabet.length) : digit n = alphabet[n] :=
  List.getD_eq_getElem _ _ h

theorem value_digit {n : ℕ} (h : n < 64) : value (digit n) = some n := by
  rw [← length_alphabet] at h
  rw [digit_eq h, value, if_pos (List.getElem_mem h), nodup_alphabet.idxOf_getElem n h]

theorem digit_ne_pad {n : ℕ} (h : n < 64) : digit n ≠ pad := by
  rw [← length_alphabet] at h
  rw [digit_eq h]
  exact fun heq => pad_notMem_alphabet (heq ▸ List.getElem_mem h)

/-- Only digits and paddings are in encoded text. -/
theorem notMem_encode {b : Byte} (halphabet : b ∉ alphabet) (hpad : b ≠ pad) :
    ∀ s : List Byte, b ∉ encode s := by
  have hdigit : ∀ n, b ≠ digit n := by
    rintro n rfl
    rcases lt_or_ge n alphabet.length with hlt | hge
    · exact halphabet (digit_eq hlt ▸ List.getElem_mem hlt)
    · exact hpad (List.getD_eq_default _ _ hge)
  intro s
  induction s using encode.induct with
  | case1 => exact List.not_mem_nil
  | case2 a => simpa [encode, hdigit] using hpad
  | case3 a c => simpa [encode, hdigit] using hpad
  | case4 a c d s ih => simp [encode, hdigit, ih]

theorem length_encode : ∀ s : List Byte, (encode s).length = (s.length + 2) / 3 * 4
  | [] => rfl
  | [_] => by simp [encode]
  | [_, _] => by simp [encode]
  | a :: b :: c :: rest => by
    rw [encode]
    simp only [List.length_cons, length_encode rest]
    omega

theorem number_two {p q : ℕ} (hp : p < 64) (hq : q < 64) :
    number [digit p, digit q] = some (p * 64 + q) := by
  simp [number, value_digit hp, value_digit hq]

theorem number_three {p q r : ℕ} (hp : p < 64) (hq : q < 64) (hr : r < 64) :
    number [digit p, digit q, digit r] = some ((p * 64 + q) * 64 + r) := by
  simp [number, value_digit hp, value_digit hq, value_digit hr]

theorem number_four {p q r s : ℕ} (hp : p < 64) (hq : q < 64) (hr : r < 64) (hs : s < 64) :
    number [digit p, digit q, digit r, digit s] = some (((p * 64 + q) * 64 + r) * 64 + s) := by
  simp [number, value_digit hp, value_digit hq, value_digit hr, value_digit hs]

/-- What a group of three bytes is turned into. -/
theorem number_group (a b c : Byte) :
    let n := (a.toNat * 256 + b.toNat) * 256 + c.toNat
    number [digit (n / 262144), digit (n / 4096 % 64), digit (n / 64 % 64), digit (n % 64)] =
      some n := by
  intro n
  have ha := a.isLt
  have hb := b.isLt
  have hc := c.isLt
  rw [number_four (by omega) (by omega) (by omega) (by omega)]
  congr 1
  omega

theorem bytes_group (a b c : Byte) :
    let n := (a.toNat * 256 + b.toNat) * 256 + c.toNat
    BitVec.ofNat 8 (n / 65536) = a ∧ BitVec.ofNat 8 (n / 256) = b ∧ BitVec.ofNat 8 n = c := by
  intro n
  have ha := a.isLt
  have hb := b.isLt
  have hc := c.isLt
  refine ⟨BitVec.eq_of_toNat_eq ?_, BitVec.eq_of_toNat_eq ?_, BitVec.eq_of_toNat_eq ?_⟩
  · rw [BitVec.toNat_ofNat]
    omega
  · rw [BitVec.toNat_ofNat]
    omega
  · rw [BitVec.toNat_ofNat]
    omega

theorem decode_encode : ∀ s : List Byte, decode (encode s) = some s
  | [] => rfl
  | [a] => by
    have ha := a.isLt
    rw [encode, decode, if_pos ⟨rfl, rfl⟩, number_two (by omega) (by omega), Option.map_some]
    congr 2
    apply BitVec.eq_of_toNat_eq
    rw [BitVec.toNat_ofNat]
    omega
  | [a, b] => by
    have ha := a.isLt
    have hb := b.isLt
    rw [encode, decode, if_neg fun h => digit_ne_pad (by omega) h.1, if_pos rfl,
      number_three (by omega) (by omega) (by omega), Option.map_some]
    congr 2
    · apply BitVec.eq_of_toNat_eq
      rw [BitVec.toNat_ofNat]
      omega
    · congr 1
      apply BitVec.eq_of_toNat_eq
      rw [BitVec.toNat_ofNat]
      omega
  | a :: b :: c :: rest => by
    obtain ⟨ha, hb, hc⟩ := bytes_group a b c
    have hlast : digit (((a.toNat * 256 + b.toNat) * 256 + c.toNat) % 64) ≠ pad :=
      digit_ne_pad (Nat.mod_lt _ (by decide))
    have ih := decode_encode rest
    rw [encode]
    cases hrest : encode rest with
    | nil =>
      rw [hrest] at ih
      obtain rfl : [] = rest := Option.some.inj ih
      rw [decode, if_neg fun h => hlast h.2, if_neg hlast, number_group, Option.map_some,
        ha, hb, hc]
    | cons d digits =>
      rw [hrest] at ih
      rw [decode, number_group, Option.bind_some, ih, Option.map_some, ha, hb, hc]
      exact List.cons_ne_nil d digits

end KasmVNC.Lib.Base64
