import Mathlib.Algebra.Order.Ring.Nat
import KasmVNC.Lib.Run

/-!
# Checked arithmetic on machine words

Words wrap around. A quotient and an assertion can go wrong, so they are computed in
`Except Fault`: a program that returns has divided by nothing that is zero, and its
assertions have held.
-/

namespace KasmVNC.Lib

inductive Fault
  | divisionByZero
  | assertion
deriving DecidableEq

def divide (a b : UInt32) : Except Fault UInt32 :=
  if b = 0 then .error .divisionByZero else .ok (a / b)

def require (p : Prop) [Decidable p] : Except Fault Unit :=
  if p then .ok () else .error .assertion

theorem divide_ok {a b : UInt32} (h : b ≠ 0) : divide a b = .ok (a / b) := if_neg h

theorem require_ok {p : Prop} [Decidable p] (h : p) : require p = .ok () := if_pos h

/-! ## Words -/

theorem Word.ne_zero_of_lt {a b : UInt32} (h : a < b) : b ≠ 0 := by
  rintro rfl
  exact absurd (UInt32.lt_iff_toNat_lt.mp h) (Nat.not_lt_zero _)

/-- Scaling down makes a word smaller, also when the product wraps around. -/
theorem Word.mul_div_le {a b c : UInt32} (h : b ≤ c) : a * b / c ≤ a := by
  have hbc : b.toNat ≤ c.toNat := UInt32.le_iff_toNat_le.mp h
  rw [UInt32.le_iff_toNat_le, UInt32.toNat_div, UInt32.toNat_mul]
  calc a.toNat * b.toNat % 2 ^ 32 / c.toNat
      ≤ a.toNat * b.toNat / c.toNat := Nat.div_le_div_right (Nat.mod_le _ _)
    _ ≤ a.toNat * c.toNat / c.toNat := Nat.div_le_div_right (Nat.mul_le_mul_left _ hbc)
    _ ≤ a.toNat := Nat.div_le_of_le_mul (Nat.mul_comm _ _).le

theorem Word.eq_of_sub_eq_zero {a b : UInt32} (h : a - b = 0) : a = b := by
  rw [← UInt32.sub_add_cancel a b, h, UInt32.zero_add]

theorem Word.le_max_left (a b : UInt32) : a ≤ max a b := by
  show a ≤ if a ≤ b then b else a
  split
  · assumption
  · exact UInt32.le_refl a

theorem Word.le_max_right (a b : UInt32) : b ≤ max a b := by
  show b ≤ if a ≤ b then b else a
  split
  · exact UInt32.le_refl b
  · rename_i hlt
    exact UInt32.le_of_lt (UInt32.not_le.mp hlt)

theorem Word.zero_le (a : UInt32) : 0 ≤ a := UInt32.le_iff_toNat_le.mpr (Nat.zero_le _)

theorem Word.max_le {a b c : UInt32} (ha : a ≤ c) (hb : b ≤ c) : max a b ≤ c := by
  show (if a ≤ b then b else a) ≤ c
  split
  · exact hb
  · exact ha

/-- Subtracting without a borrow. -/
theorem Word.sub_le_self {a b : UInt32} (h : b ≤ a) : a - b ≤ a := by
  rw [UInt32.le_iff_toNat_le, UInt32.toNat_sub_of_le a b h]
  exact Nat.sub_le _ _

theorem Word.sub_add_eq (a b c : UInt32) : a - (b + c) = a - b - c := by
  rw [← UInt32.toNat_inj, UInt32.toNat_sub, UInt32.toNat_sub, UInt32.toNat_sub,
    UInt32.toNat_add]
  have := a.toNat_lt
  have := b.toNat_lt
  have := c.toNat_lt
  omega

/-- What lies after a point between two others, counted around. -/
theorem Word.sub_le_sub_of_sub_le {a b c : UInt32} (h : b - a ≤ c - a) : c - b ≤ c - a := by
  have hsplit : c - b = (c - a) - (b - a) := by
    rw [← Word.sub_add_eq, UInt32.add_comm, UInt32.sub_add_cancel]
  rw [hsplit]
  exact Word.sub_le_self h

/-! ## Counters that wrap around -/

/-- The distance between two counts is the difference of the words, if it fits. -/
theorem Word.toNat_ofNat_sub {m n : ℕ} (hmn : m ≤ n) (hfit : n - m < 2 ^ 32) :
    (UInt32.ofNat n - UInt32.ofNat m).toNat = n - m := by
  rw [UInt32.toNat_sub, UInt32.toNat_ofNat', UInt32.toNat_ofNat']
  omega

/-- Counts in order: the distances from the first one are in order. -/
theorem Word.ofNat_sub_le_sub {l m n : ℕ} (hlm : l ≤ m) (hmn : m ≤ n)
    (hfit : n - l < 2 ^ 32) :
    UInt32.ofNat m - UInt32.ofNat l ≤ UInt32.ofNat n - UInt32.ofNat l := by
  rw [UInt32.le_iff_toNat_le, Word.toNat_ofNat_sub hlm (by omega),
    Word.toNat_ofNat_sub (hlm.trans hmn) hfit]
  omega

end KasmVNC.Lib
