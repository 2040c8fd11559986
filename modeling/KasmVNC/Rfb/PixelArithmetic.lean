import KasmVNC.Rfb.PixelFormat

/-!
# Pixel arithmetic

`pixelFromRGB` looks the channels up in a table that is made for a number of bits, and
`rgbFromPixel` in another. The tables undo each other, so a pixel comes back from its colours
in all bits of the channels. `isSane` compares the masks of the channels, while the tables go
by their bits, and `bits` takes a channel whose maximum is 0 for one of a single bit: that bit
is outside all masks unless another channel has it.
-/

namespace KasmVNC.Rfb

open KasmVNC.Lib

namespace PixelFormatOf

variable {width width' : PixelWidth} {pf : PixelFormatOf width}

/-! ## The other overloads -/

/-- One channel in `pixelFromRGB`, from 8 bits. -/
def channelFrom8 (c : Channel) (v : Byte) : Pixel :=
  BitVec.ofNat 32 (downconv c.bits v.toNat) <<< c.shift

/-- `pixelFromRGB(rdr::U8, rdr::U8, rdr::U8)` -/
def pixelFromRGB8 (pf : PixelFormatOf width) (red green blue : Byte) : Pixel :=
  channelFrom8 pf.red red ||| channelFrom8 pf.green green ||| channelFrom8 pf.blue blue

/-- `_r << 8 | _r` -/
def doubled (v : Byte) : BitVec 16 := v.setWidth 16 <<< 8 ||| v.setWidth 16

/-- `pixelFromPixel`, which goes through 16 bits. -/
def pixelFromPixel (pf : PixelFormatOf width) (srcPF : PixelFormatOf width') (src : Pixel) :
    Pixel :=
  pf.pixelFromRGB (doubled (channelOf srcPF.red src)) (doubled (channelOf srcPF.green src))
    (doubled (channelOf srcPF.blue src))

/-- `rgbFromPixel` and `pixelFromRGB` with 8 bits. -/
def pixelFromPixel8 (pf : PixelFormatOf width) (srcPF : PixelFormatOf width') (src : Pixel) :
    Pixel :=
  pf.pixelFromRGB8 (channelOf srcPF.red src) (channelOf srcPF.green src)
    (channelOf srcPF.blue src)

/-- Only the upper half of 16 bits is looked at. -/
theorem channelFrom_eq (c : Channel) (v : BitVec 16) :
    channelFrom c v = channelFrom8 c ((v >>> 8).setWidth 8) := by
  have hlt : (v >>> 8).toNat < 2 ^ 8 := by
    rw [BitVec.toNat_ushiftRight, Nat.shiftRight_eq_div_pow]
    have := v.isLt
    omega
  rw [channelFrom, channelFrom8, BitVec.toNat_setWidth, Nat.mod_eq_of_lt hlt]

theorem doubled_high : ∀ v : Byte, (doubled v >>> 8).setWidth 8 = v := by
  decide

theorem pixelFromPixel_eq (pf : PixelFormatOf width) (srcPF : PixelFormatOf width')
    (src : Pixel) : pf.pixelFromPixel srcPF src = pf.pixelFromPixel8 srcPF src := by
  simp only [pixelFromPixel, pixelFromPixel8, pixelFromRGB, pixelFromRGB8, channelFrom_eq,
    doubled_high]

theorem pixelFromRGB_eq (pf : PixelFormatOf width) (red green blue : BitVec 16) :
    pf.pixelFromRGB red green blue = pf.pixelFromRGB8 ((red >>> 8).setWidth 8)
      ((green >>> 8).setWidth 8) ((blue >>> 8).setWidth 8) := by
  simp only [pixelFromRGB, pixelFromRGB8, channelFrom_eq]

/-! ## The tables -/

theorem upconv_lt {b : ℕ} (hpos : 1 ≤ b) (i : ℕ) : upconv b i < 256 := by
  have hpow : 2 ^ 1 ≤ 2 ^ b := Nat.pow_le_pow_right Nat.two_pos hpos
  have hmod : i % 2 ^ b < 2 ^ b := Nat.mod_lt _ (Nat.two_pow_pos b)
  have hle : i % 2 ^ b * 255 ≤ (2 ^ b - 1) * 255 := Nat.mul_le_mul_right 255 (by omega)
  rw [upconv, Nat.div_lt_iff_lt_mul (by omega)]
  omega

/-- **The tables undo each other.** Up to seven bits it is the rounding of `downconv` that makes
up for what `upconv` cuts off, and of eight bits nothing is cut off. -/
theorem downconv_upconv {b : ℕ} (hpos : 1 ≤ b) (hle : b ≤ 8) (i : ℕ) :
    downconv b (upconv b i) = i % 2 ^ b := by
  rcases hle.eq_or_lt with rfl | hlt
  · rw [downconv, upconv]
    omega
  · have hlow : 2 ^ 1 ≤ 2 ^ b := Nat.pow_le_pow_right Nat.two_pos hpos
    have hhigh : 2 ^ b ≤ 2 ^ 7 := Nat.pow_le_pow_right Nat.two_pos (Nat.le_of_lt_succ hlt)
    have hcut : upconv b i * (2 ^ b - 1) ≤ i % 2 ^ b * 255 := Nat.div_mul_le_self _ _
    have hnear : i % 2 ^ b * 255 < upconv b i * (2 ^ b - 1) + (2 ^ b - 1) :=
      Nat.lt_div_mul_add (by omega)
    rw [downconv]
    omega

theorem downconv_lt {b i : ℕ} (hi : i < 256) : downconv b i < 2 ^ b := by
  have hpos : 0 < 2 ^ b := Nat.two_pow_pos b
  have hle : i * (2 ^ b - 1) ≤ 255 * (2 ^ b - 1) := Nat.mul_le_mul_right _ (by omega)
  rw [downconv, Nat.div_lt_iff_lt_mul (by decide)]
  omega

/-- The bits that a channel sets are its own. -/
theorem getLsbD_channelFrom8 (c : Channel) (v : Byte) {j : ℕ} (hj : j < 32) :
    (channelFrom8 c v).getLsbD j =
      (decide (c.shift ≤ j) && (downconv c.bits v.toNat).testBit (j - c.shift)) := by
  have hlt : j - c.shift < 32 := by omega
  rw [channelFrom8, BitVec.getLsbD_shiftLeft, BitVec.getLsbD_ofNat]
  by_cases hle : c.shift ≤ j
  · simp [hj, hle, hlt]
  · simp [hle, Nat.lt_of_not_le hle]

theorem bits_of_channelFrom8 {c : Channel} {v : Byte} {j : ℕ} (hj : j < 32)
    (h : (channelFrom8 c v).getLsbD j = true) : c.shift ≤ j ∧ j < c.shift + c.bits := by
  rw [getLsbD_channelFrom8 c v hj, Bool.and_eq_true, decide_eq_true_eq] at h
  obtain ⟨hle, hbit⟩ := h
  by_contra hout
  have hpow : 2 ^ c.bits ≤ 2 ^ (j - c.shift) := Nat.pow_le_pow_right Nat.two_pos (by omega)
  have hlt := downconv_lt (b := c.bits) v.isLt
  rw [Nat.testBit_lt_two_pow (by omega)] at hbit
  cases hbit

/-- A channel goes to its colour and back. -/
theorem getLsbD_channel_round_trip {c : Channel} (hpos : 1 ≤ c.bits) (hle : c.bits ≤ 8)
    (p : Pixel) {j : ℕ} (hj : j < 32) : (channelFrom8 c (channelOf c p)).getLsbD j =
      (decide (c.shift ≤ j ∧ j < c.shift + c.bits) && p.getLsbD j) := by
  have hback := downconv_upconv hpos hle ((p >>> c.shift).toNat % 256)
  rw [Nat.mod_mod_of_dvd _ (Nat.pow_dvd_pow 2 hle)] at hback
  have hlt := upconv_lt hpos ((p >>> c.shift).toNat % 256)
  have hvalue : (channelOf c p).toNat = upconv c.bits ((p >>> c.shift).toNat % 256) := by
    rw [channelOf, BitVec.toNat_ofNat, Nat.mod_eq_of_lt hlt]
  rw [getLsbD_channelFrom8 _ _ hj, hvalue, hback, Nat.testBit_mod_two_pow, BitVec.testBit_toNat,
    BitVec.getLsbD_ushiftRight]
  by_cases hshift : c.shift ≤ j
  · rw [Nat.add_sub_cancel' hshift]
    have hiff : (j - c.shift < c.bits) = (c.shift ≤ j ∧ j < c.shift + c.bits) :=
      propext (by omega)
    simp [hshift, hiff]
  · simp [hshift]

/-! ## The masks -/

/-- `redMax << redShift` -/
def mask (c : Channel) : Pixel := c.max.setWidth 32 <<< c.shift

def channelMask (pf : PixelFormatOf width) : Pixel :=
  mask pf.red ||| mask pf.green ||| mask pf.blue

theorem toNat_max {n : ℕ} (h : n < 256) : (BitVec.ofNat 16 n).toNat = n := by
  rw [BitVec.toNat_ofNat, Nat.mod_eq_of_lt (by omega)]

theorem max_of_sane : ∀ value : Fin 256, value.val &&& (value.val + 1) = 0 →
    (value.val = 0 ∧ bits (BitVec.ofNat 16 value.val) = 1) ∨
      value.val ≠ 0 ∧ value.val = 2 ^ bits (BitVec.ofNat 16 value.val) - 1 := by
  decide +kernel

/-- A maximum is 0, and taken for one bit, or it is all ones. -/
theorem channel_max {c : Channel} (hc : c ∈ pf.channels) :
    (c.max.toNat = 0 ∧ c.bits = 1) ∨ c.max.toNat ≠ 0 ∧ c.max.toNat = 2 ^ c.bits - 1 := by
  have hsane := pf.sane
  simp only [PixelFormatFields.isSane, Bool.and_eq_true, decide_eq_true_iff] at hsane
  obtain ⟨⟨⟨⟨⟨⟨⟨⟨⟨⟨⟨⟨⟨⟨⟨-, -⟩, -⟩, hred⟩, hgreen⟩, hblue⟩, hredLt⟩, hgreenLt⟩, hblueLt⟩, -⟩,
    -⟩, -⟩, -⟩, -⟩, -⟩, -⟩ := hsane
  unfold channels at hc
  simp only [List.mem_cons, List.not_mem_nil, or_false] at hc
  rcases hc with rfl | rfl | rfl
  · rw [PixelFormatOf.red, toNat_max hredLt]
    exact max_of_sane ⟨pf.redMax, hredLt⟩ hred
  · rw [PixelFormatOf.green, toNat_max hgreenLt]
    exact max_of_sane ⟨pf.greenMax, hgreenLt⟩ hgreen
  · rw [PixelFormatOf.blue, toNat_max hblueLt]
    exact max_of_sane ⟨pf.blueMax, hblueLt⟩ hblue

theorem toNat_mask {c : Channel} (hc : c ∈ pf.channels) :
    (mask c).toNat = c.max.toNat <<< c.shift ∧ c.max.toNat <<< c.shift < 2 ^ (8 * width.bytes) := by
  obtain ⟨⟨hpos, hle⟩, hfit⟩ := channel_bounds hc
  have hmax : c.max.toNat < 2 ^ c.bits := by
    have hpow : 2 ^ 1 ≤ 2 ^ c.bits := Nat.pow_le_pow_right Nat.two_pos hpos
    rcases channel_max hc with ⟨hzero, -⟩ | ⟨-, hones⟩ <;> omega
  have hshift : c.max.toNat <<< c.shift < 2 ^ (8 * width.bytes) := by
    rw [Nat.shiftLeft_eq]
    calc c.max.toNat * 2 ^ c.shift
        < 2 ^ c.bits * 2 ^ c.shift := Nat.mul_lt_mul_of_pos_right hmax (Nat.two_pow_pos _)
      _ = 2 ^ (c.bits + c.shift) := (Nat.pow_add ..).symm
      _ ≤ 2 ^ (8 * width.bytes) := Nat.pow_le_pow_right Nat.two_pos (by omega)
  have hword : 2 ^ (8 * width.bytes) ≤ 2 ^ 32 :=
    Nat.pow_le_pow_right Nat.two_pos (by have := width.bytes_le; omega)
  refine ⟨?_, hshift⟩
  rw [mask, BitVec.toNat_shiftLeft, BitVec.toNat_setWidth,
    Nat.mod_eq_of_lt (c.max.isLt.trans (by decide)), Nat.mod_eq_of_lt (by omega)]

theorem getLsbD_mask {c : Channel} (hc : c ∈ pf.channels) {j : ℕ} :
    (mask c).getLsbD j = true ↔
      c.max.toNat ≠ 0 ∧ c.shift ≤ j ∧ j < c.shift + c.bits := by
  rw [← BitVec.testBit_toNat, (toNat_mask hc).1, Nat.testBit_shiftLeft, Bool.and_eq_true,
    decide_eq_true_eq]
  rcases channel_max hc with ⟨hzero, -⟩ | ⟨hne, hones⟩
  · simp [hzero]
  · rw [hones, Nat.testBit_two_pow_sub_one, decide_eq_true_eq, ← hones]
    constructor
    · rintro ⟨hle, hlt⟩
      exact ⟨hne, hle, by omega⟩
    · rintro ⟨-, hle, hlt⟩
      exact ⟨hle, by omega⟩

theorem getLsbD_channelMask {j : ℕ} :
    pf.channelMask.getLsbD j = true ↔ ∃ c ∈ pf.channels, (mask c).getLsbD j = true := by
  simp [channelMask, channels, or_assoc]

/-- The channels are apart, as `isSane` has tested it. -/
theorem mask_disjoint (pf : PixelFormatOf width) : mask pf.red &&& mask pf.green = 0 ∧
    mask pf.red &&& mask pf.blue = 0 ∧ mask pf.green &&& mask pf.blue = 0 := by
  have hsane := pf.sane
  simp only [PixelFormatFields.isSane, Bool.and_eq_true, decide_eq_true_iff] at hsane
  obtain ⟨⟨⟨⟨⟨⟨⟨⟨⟨⟨-, hredLt⟩, hgreenLt⟩, hblueLt⟩, -⟩, -⟩, -⟩, -⟩, hrg⟩, hrb⟩, hgb⟩ := hsane
  have hmask : ∀ {c d : Channel}, c ∈ pf.channels → d ∈ pf.channels →
      (c.max.toNat <<< c.shift) &&& (d.max.toNat <<< d.shift) = 0 → mask c &&& mask d = 0 := by
    intro c d hc hd h
    refine BitVec.eq_of_toNat_eq ?_
    rw [BitVec.toNat_and, (toNat_mask hc).1, (toNat_mask hd).1, h]
    rfl
  refine ⟨hmask (by simp [channels]) (by simp [channels]) ?_,
    hmask (by simp [channels]) (by simp [channels]) ?_,
    hmask (by simp [channels]) (by simp [channels]) ?_⟩
  · rw [PixelFormatOf.red, PixelFormatOf.green, toNat_max hredLt, toNat_max hgreenLt]
    exact hrg
  · rw [PixelFormatOf.red, PixelFormatOf.blue, toNat_max hredLt, toNat_max hblueLt]
    exact hrb
  · rw [PixelFormatOf.green, PixelFormatOf.blue, toNat_max hgreenLt, toNat_max hblueLt]
    exact hgb

/-! ## The arithmetic -/

/-- A bit that the tables take for one of a channel. -/
def InChannel (pf : PixelFormatOf width) (j : ℕ) : Prop :=
  ∃ c ∈ pf.channels, c.shift ≤ j ∧ j < c.shift + c.bits

theorem inChannel_of_mask {j : ℕ} (h : pf.channelMask.getLsbD j = true) : pf.InChannel j := by
  obtain ⟨c, hc, hbit⟩ := getLsbD_channelMask.mp h
  exact ⟨c, hc, ((getLsbD_mask hc).mp hbit).2⟩

theorem inChannel_of_pixelFromRGB8 {red green blue : Byte} {j : ℕ} (hj : j < 32)
    (h : (pf.pixelFromRGB8 red green blue).getLsbD j = true) : pf.InChannel j := by
  rw [pixelFromRGB8, BitVec.getLsbD_or, BitVec.getLsbD_or, Bool.or_eq_true, Bool.or_eq_true] at h
  rcases h with (h | h) | h
  · exact ⟨pf.red, by simp [channels], bits_of_channelFrom8 hj h⟩
  · exact ⟨pf.green, by simp [channels], bits_of_channelFrom8 hj h⟩
  · exact ⟨pf.blue, by simp [channels], bits_of_channelFrom8 hj h⟩

/-- **A pixel comes back from its colours** in all bits of the channels. -/
theorem getLsbD_round_trip {p : Pixel} {j : ℕ} (hj : j < 32) (h : pf.InChannel j) :
    (pf.pixelFromPixel8 pf p).getLsbD j = p.getLsbD j := by
  have hbounds : ∀ c ∈ pf.channels, 1 ≤ c.bits ∧ c.bits ≤ 8 := fun c hc => (channel_bounds hc).1
  obtain ⟨c, hc, hin⟩ := h
  simp only [channels, List.forall_mem_cons] at hbounds
  obtain ⟨⟨hred, hred'⟩, ⟨hgreen, hgreen'⟩, ⟨hblue, hblue'⟩, -⟩ := hbounds
  rw [pixelFromPixel8, pixelFromRGB8, BitVec.getLsbD_or, BitVec.getLsbD_or,
    getLsbD_channel_round_trip hred hred' p hj, getLsbD_channel_round_trip hgreen hgreen' p hj,
    getLsbD_channel_round_trip hblue hblue' p hj]
  simp only [channels, List.mem_cons, List.not_mem_nil, or_false] at hc
  cases p.getLsbD j with
  | false => simp
  | true => rcases hc with rfl | rfl | rfl <;> simp [hin]

/-- What conversions rely on. -/
structure ArithmeticSound (pf : PixelFormatOf width) : Prop where
  inside : ∀ red green blue,
    pf.pixelFromRGB red green blue &&& pf.channelMask = pf.pixelFromRGB red green blue
  inside8 : ∀ red green blue,
    pf.pixelFromRGB8 red green blue &&& pf.channelMask = pf.pixelFromRGB8 red green blue
  disjoint : mask pf.red &&& mask pf.green = 0 ∧ mask pf.red &&& mask pf.blue = 0 ∧
    mask pf.green &&& mask pf.blue = 0
  fits : ∀ c ∈ pf.channels, (mask c).toNat < 2 ^ pf.bpp
  roundTrip : ∀ p, pf.pixelFromPixel pf p &&& pf.channelMask = p &&& pf.channelMask
  roundTrip8 : ∀ p, pf.pixelFromPixel8 pf p &&& pf.channelMask = p &&& pf.channelMask

/-- **Pixel arithmetic.** It is sound if the bit that a channel without bits takes up belongs
to another channel. -/
theorem pixel_arithmetic_iff (pf : PixelFormatOf width) :
    pf.ArithmeticSound ↔ ∀ c ∈ pf.channels, c.max = 0 → pf.channelMask.getLsbD c.shift = true := by
  constructor
  · intro h c hc _
    obtain ⟨⟨hpos, -⟩, hfit⟩ := channel_bounds hc
    have hbytes := width.bytes_le
    have hbit : pf.maxPixel.getLsbD c.shift = true :=
      (getLsbD_maxPixel (by omega)).mpr ⟨c, hc, le_rfl, by omega⟩
    rw [maxPixel, ← h.inside, BitVec.getLsbD_and, Bool.and_eq_true] at hbit
    exact hbit.2
  · intro h
    have hmask : ∀ j, pf.InChannel j → pf.channelMask.getLsbD j = true := by
      rintro j ⟨c, hc, hle, hlt⟩
      rcases channel_max hc with ⟨hzero, hone⟩ | ⟨hne, -⟩
      · obtain rfl : j = c.shift := by omega
        exact h c hc (BitVec.eq_of_toNat_eq hzero)
      · exact getLsbD_channelMask.mpr ⟨c, hc, (getLsbD_mask hc).mpr ⟨hne, hle, hlt⟩⟩
    have hinside : ∀ red green blue,
        pf.pixelFromRGB8 red green blue &&& pf.channelMask = pf.pixelFromRGB8 red green blue := by
      intro red green blue
      refine BitVec.eq_of_getLsbD_eq fun j hj => ?_
      rw [BitVec.getLsbD_and]
      cases hbit : (pf.pixelFromRGB8 red green blue).getLsbD j with
      | false => rfl
      | true => rw [hmask j (inChannel_of_pixelFromRGB8 hj hbit), Bool.and_true]
    have hback : ∀ p, pf.pixelFromPixel8 pf p &&& pf.channelMask = p &&& pf.channelMask := by
      intro p
      refine BitVec.eq_of_getLsbD_eq fun j hj => ?_
      rw [BitVec.getLsbD_and, BitVec.getLsbD_and]
      cases hbit : pf.channelMask.getLsbD j with
      | false => rw [Bool.and_false, Bool.and_false]
      | true => rw [getLsbD_round_trip hj (inChannel_of_mask hbit)]
    exact {
      inside := by
        intro red green blue
        rw [pixelFromRGB_eq]
        exact hinside _ _ _
      inside8 := hinside
      disjoint := mask_disjoint pf
      fits := by
        intro c hc
        rw [(toNat_mask hc).1, pf.bpp_eq]
        exact (toNat_mask hc).2
      roundTrip := by
        intro p
        rw [pixelFromPixel_eq]
        exact hback p
      roundTrip8 := hback }

theorem bytes_bpp32 : 32 = 8 * PixelWidth.bytes .bpp32 := rfl

/-- A format without red, in which no channel has the lowest bit. -/
def colourlessFormat : PixelFormatOf .bpp32 where
  bpp := 32
  depth := 24
  bigEndian := false
  trueColour := true
  redMax := 0
  greenMax := 255
  blueMax := 255
  redShift := 0
  greenShift := 8
  blueShift := 16
  sane := by decide
  bpp_eq := bytes_bpp32

/-- Red sets that bit. -/
theorem sets_bit_outside : colourlessFormat.pixelFromRGB8 255 0 0 = 0x000001 ∧
    colourlessFormat.channelMask = 0xffff00 ∧ ¬ colourlessFormat.ArithmeticSound := by
  have hpixel : colourlessFormat.pixelFromRGB8 255 0 0 = 0x000001 := by decide
  have hmask : colourlessFormat.channelMask = 0xffff00 := by decide
  refine ⟨hpixel, hmask, fun h => ?_⟩
  have hinside := h.inside8 255 0 0
  rw [hpixel, hmask] at hinside
  exact absurd hinside (by decide)

end PixelFormatOf

end KasmVNC.Rfb
