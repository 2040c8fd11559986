import KasmVNC.Lib.Wire
import Mathlib.Data.Nat.Bitwise

/-!
# Small numbers and run lengths in bytes

Numbers of `b` bits, where `b` divides 8, are packed into bytes, the first one in
the highest bits, and the last byte is padded. The length of a run, less one, is the
sum of bytes of which only the last one is less than 255.
-/

namespace KasmVNC.Lib

open Reader

variable {κ : Type}

/-! ## Packing -/

/-- Append numbers to the `nbits` bits that are waiting in a byte. -/
def packBits (b : ℕ) : Byte → ℕ → List Byte → List Byte
  | byte, nbits, [] => if nbits > 0 then [byte <<< (8 - nbits)] else []
  | byte, nbits, i :: is =>
    if nbits + b ≥ 8 then (byte <<< b ||| i) :: packBits b (byte <<< b ||| i) 0 is
    else packBits b (byte <<< b ||| i) (nbits + b) is

/-- The `b` lowest bits. -/
def lowBits (b : ℕ) : Byte := BitVec.ofNat 8 (2 ^ b - 1)

namespace Reader

/-- The byte to unpack from, and the bits left in it. -/
def nextBits (byte : Byte) (nbits : ℕ) : Reader κ (Byte × ℕ) :=
  if nbits = 0 then do
    let byte ← readU8
    pure (byte, 8)
  else pure (byte, nbits)

/-- Unpack numbers from the `nbits` bits left in a byte, and from the bytes to come. -/
def unpackBits (b : ℕ) : ℕ → Byte → ℕ → Reader κ (List Byte)
  | 0, _, _ => pure []
  | n + 1, byte, nbits => do
      let next ← nextBits byte nbits
      let is ← unpackBits b n next.1 (next.2 - b)
      pure (((next.1 >>> (next.2 - b)) &&& lowBits b) :: is)

end Reader

section Packing

variable {b : ℕ}

theorem getLsbD_of_toNat_lt {i : Byte} {u : ℕ} (hi : i.toNat < 2 ^ b) (hu : ¬u < b) :
    i.getLsbD u = false :=
  Nat.testBit_lt_two_pow (lt_of_lt_of_le hi (Nat.pow_le_pow_right Nat.two_pos (not_lt.mp hu)))

theorem getLsbD_lowBits (u : ℕ) : (lowBits b).getLsbD u = (decide (u < 8) && decide (u < b)) := by
  rw [lowBits, BitVec.getLsbD_ofNat, Nat.testBit_two_pow_sub_one]

/-- The number whose bits stand in a byte from a position on. -/
theorem extract_bits {byte i : Byte} {pos : ℕ} (hi : i.toNat < 2 ^ b)
    (hbits : ∀ u < b, byte.getLsbD (pos + u) = i.getLsbD u) : (byte >>> pos) &&& lowBits b = i := by
  refine BitVec.eq_of_getLsbD_eq fun u hu => ?_
  rw [BitVec.getLsbD_and, BitVec.getLsbD_ushiftRight, getLsbD_lowBits]
  by_cases hub : u < b
  · rw [hbits u hub]
    simp [hu, hub]
  · rw [getLsbD_of_toNat_lt hi hub]
    simp [hub]

/-- The bits of a number that has just been appended, and of what was there before. -/
theorem getLsbD_append {byte i : Byte} (hi : i.toNat < 2 ^ b) {u : ℕ} (hu : u < 8) :
    (byte <<< b ||| i).getLsbD u = if u < b then i.getLsbD u else byte.getLsbD (u - b) := by
  rw [BitVec.getLsbD_or, BitVec.getLsbD_shiftLeft]
  by_cases hub : u < b
  · simp [hub]
  · rw [getLsbD_of_toNat_lt hi hub]
    simp [hub, hu]

/-- The next byte starts with the bits that are waiting, and the rest of it and the
bytes that follow give the numbers. -/
theorem packBits_cases (hpos : 0 < b) (hdvd : b ∣ 8) : ∀ {is : List Byte} {v : Byte}
    {n : ℕ}, b ∣ n → n < 8 → (0 < n ∨ is ≠ []) → (∀ i ∈ is, i.toNat < 2 ^ b) →
    ∃ first rest, packBits b v n is = first :: rest ∧
      (∀ u < n, first.getLsbD (8 - n + u) = v.getLsbD u) ∧
      Reads (unpackBits b is.length first (8 - n) : Reader κ _) rest is
  | [], byte, nbits, _, hlt, hne, _ => by
    have hbits : 0 < nbits := hne.resolve_right fun h => h rfl
    refine ⟨byte <<< (8 - nbits), [], if_pos hbits, fun u hu => ?_, consumes_refl _⟩
    rw [BitVec.getLsbD_shiftLeft]
    have hge : ¬8 - nbits + u < 8 - nbits := by omega
    have h8 : 8 - nbits + u < 8 := by omega
    simp [hge, h8]
  | i :: is, byte, nbits, hbits, hlt, _, hall => by
    have hi := hall i List.mem_cons_self
    have his : ∀ j ∈ is, j.toNat < 2 ^ b := fun j hj => hall j (List.mem_cons_of_mem i hj)
    -- the free bits are a multiple of `b`, too
    have hroom : nbits + b ≤ 8 := by
      have hle := Nat.le_of_dvd (by omega) ((Nat.dvd_sub_iff_left hlt.le hbits).mpr hdvd)
      omega
    have hleft : 8 - nbits - b = 8 - (nbits + b) := by omega
    have hne0 : ¬8 - nbits = 0 := by omega
    rw [packBits]
    by_cases hfull : nbits + b ≥ 8
    · rw [if_pos hfull]
      refine ⟨_, _, rfl, fun u hu => ?_, ?_⟩
      · rw [getLsbD_append hi (by omega), if_neg (by omega)]
        congr 1
        omega
      · have hzero : 8 - nbits - b = 0 := by omega
        have hindex : ((byte <<< b ||| i) >>> (8 - nbits - b)) &&& lowBits b = i := by
          refine extract_bits hi fun u hu => ?_
          rw [getLsbD_append hi (by omega), hzero, Nat.zero_add, if_pos hu]
        show Reads (unpackBits b (is.length + 1) _ _) _ _
        rw [unpackBits, nextBits, if_neg hne0, pure_bind, hindex, hzero]
        refine Consumes.last (?_ : Reads _ _ is) rfl
        cases is with
        | nil => exact consumes_refl _
        | cons j js =>
          obtain ⟨first, rest, hpack, -, hread⟩ := packBits_cases hpos hdvd
            (v := byte <<< b ||| i) (Nat.dvd_zero b) (Nat.succ_pos 7)
            (Or.inr (List.cons_ne_nil j js)) his
          rw [hpack]
          intro tail calls
          exact hread tail calls
    · rw [if_neg hfull]
      obtain ⟨first, rest, hpack, htop, hread⟩ := packBits_cases hpos hdvd
        (v := byte <<< b ||| i) (n := nbits + b) (Nat.dvd_add hbits (Nat.dvd_refl b))
        (by omega)
        (Or.inl (by omega)) his
      refine ⟨first, rest, hpack, fun u hu => ?_, ?_⟩
      · have hbit := htop (b + u) (by omega)
        rw [getLsbD_append hi (by omega), if_neg (by omega), Nat.add_sub_cancel_left] at hbit
        rw [← hbit]
        congr 1
        omega
      · have hindex : (first >>> (8 - nbits - b)) &&& lowBits b = i := by
          refine extract_bits hi fun u hu => ?_
          rw [hleft, htop u (by omega), getLsbD_append hi (by omega), if_pos hu]
        show Reads (unpackBits b (is.length + 1) _ _) _ _
        rw [unpackBits, nextBits, if_neg hne0, pure_bind, hindex, hleft]
        exact Consumes.last hread rfl

/-- **Packing.** Packed numbers are unpacked. -/
theorem reads_unpackBits (hpos : 0 < b) (hdvd : b ∣ 8) {is : List Byte} (v m : Byte)
    (hall : ∀ i ∈ is, i.toNat < 2 ^ b) :
    Reads (unpackBits b is.length v 0 : Reader κ _) (packBits b m 0 is) is := by
  cases is with
  | nil => exact consumes_refl _
  | cons i is =>
    obtain ⟨first, rest, hpack, -, hread⟩ := packBits_cases (κ := κ) hpos hdvd
      (v := m) (Nat.dvd_zero b) (Nat.succ_pos 7) (Or.inr (List.cons_ne_nil i is)) hall
    rw [hpack]
    intro tail calls
    exact hread tail calls

end Packing

/-! ## Run lengths -/

/-- The loop that writes the length of a run. -/
def runBytes (n : ℕ) : List Byte :=
  if n > 255 then 255 :: runBytes (n - 255) else [BitVec.ofNat 8 (n - 1)]
termination_by n
decreasing_by omega

namespace Reader

/-- The loop over the bytes of a length: their sum. It stops at the end of the stream
if not before. -/
def readRunLoop : ℕ → Reader κ ℕ
  | 0 => fail "end of stream"
  | turns + 1 => do
      let b ← readU8
      if b = 255 then (255 + ·) <$> readRunLoop turns else pure b.toNat

def readRun : Reader κ ℕ := fun s => readRunLoop (s.input.length + 1) s

end Reader

theorem reads_runLoop {n turns : ℕ} (hpos : 0 < n) (hturns : (runBytes n).length ≤ turns) :
    Reads (readRunLoop turns : Reader κ _) (runBytes n) (n - 1) := by
  induction turns generalizing n with
  | zero =>
    rw [runBytes] at hturns
    split at hturns <;> cases hturns
  | succ turns ih =>
    rw [runBytes] at hturns ⊢
    by_cases hlong : n > 255
    · rw [if_pos hlong] at hturns ⊢
      refine Consumes.u8 ?_
      rw [if_pos rfl, map_eq_pure_bind]
      have hsum : 255 + (n - 255 - 1) = n - 1 := by omega
      refine Consumes.last (ih (by omega) (Nat.le_of_succ_le_succ hturns)) ?_
      rw [hsum]
    · rw [if_neg hlong]
      refine Consumes.last (reads_u8 _) ?_
      have hval : (BitVec.ofNat 8 (n - 1)).toNat = n - 1 := by
        rw [BitVec.toNat_ofNat]
        omega
      have hne : BitVec.ofNat 8 (n - 1) ≠ 255 := by
        intro heq
        have := congrArg BitVec.toNat heq
        rw [hval] at this
        have h255 : (255 : Byte).toNat = 255 := rfl
        omega
      rw [if_neg hne, hval]

/-- **Run lengths.** The length of a run is read back, less one. -/
theorem reads_run {n : ℕ} (hpos : 0 < n) :
    Reads (readRun : Reader κ _) (runBytes n) (n - 1) := by
  intro rest calls
  refine reads_runLoop hpos ?_ rest calls
  show (runBytes n).length ≤ (runBytes n ++ rest).length + 1
  rw [List.length_append]
  omega

end KasmVNC.Lib
