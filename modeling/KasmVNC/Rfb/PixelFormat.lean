import KasmVNC.Lib.Raster
import KasmVNC.Rfb.SMsgReader
import Mathlib.Data.Nat.Bitwise

/-!
# Pixel formats

A pixel format says where the channels of a pixel are, and `isSane` that they are in
its bytes and do not overlap. `bits` is the number of bits a
channel takes up, which is 1 for a channel whose maximum is 0, and the colours of a
pixel are what `rgbFromPixel` makes of these bits.

Two formats that are `equal` may differ in their byte order, as long as each channel
is found in the same bits of the same byte in memory: `equal_rgb`.
-/

namespace KasmVNC.Rfb

open KasmVNC.Lib

/-- The values of `bpp`. -/
inductive PixelWidth
  | bpp8
  | bpp16
  | bpp32
deriving DecidableEq, Repr

namespace PixelWidth

/-- `bpp/8` -/
def bytes : PixelWidth → ℕ
  | bpp8 => 1
  | bpp16 => 2
  | bpp32 => 4

/-- A white and a black pixel of one byte. -/
def white : RawPixel bpp8.bytes := ⟨[255], rfl⟩

def black : RawPixel bpp8.bytes := ⟨[0], rfl⟩

theorem bytes_le (width : PixelWidth) : width.bytes ≤ 4 := by
  cases width <;> decide

theorem bytes_pos (width : PixelWidth) : 0 < width.bytes := by
  cases width <;> decide

end PixelWidth

abbrev Pixel := BitVec 32

/-- Maximum and shift of a channel. -/
structure Channel where
  max : BitVec 16
  shift : ℕ
deriving DecidableEq

def Channel.bits (c : Channel) : ℕ := Rfb.bits c.max

/-- The pixel formats of a width. -/
structure PixelFormatOf (width : PixelWidth) extends PixelFormat where
  bpp_eq : bpp = 8 * width.bytes

/-- An entry of `upconvTable`. -/
def upconv (bits i : ℕ) : ℕ := i % 2 ^ bits * 255 / (2 ^ bits - 1)

/-- An entry of `downconvTable`. -/
def downconv (bits i : ℕ) : ℕ := (i * (2 ^ bits - 1) + 128) / 255

/-- Bytes, the least significant one first. -/
def pixelFromBytes : List Byte → Pixel
  | [] => 0
  | b :: bytes => pixelFromBytes bytes <<< 8 ||| b.zeroExtend 32

namespace PixelFormatOf

variable {width : PixelWidth} (pf other : PixelFormatOf width)

def red : Channel := ⟨BitVec.ofNat 16 pf.redMax, pf.redShift⟩

def green : Channel := ⟨BitVec.ofNat 16 pf.greenMax, pf.greenShift⟩

def blue : Channel := ⟨BitVec.ofNat 16 pf.blueMax, pf.blueShift⟩

def channels : List Channel := [pf.red, pf.green, pf.blue]

def is888 : Prop :=
  pf.trueColour = true ∧ width = .bpp32 ∧ pf.depth = 24 ∧
    ∀ c ∈ pf.channels, c.max = 255 ∧ c.shift % 8 = 0

instance : Decidable pf.is888 := inferInstanceAs (Decidable (_ ∧ _))

/-- The channel is in the same bits of the same byte in the other byte order. -/
def sameByte (c d : Channel) : Prop :=
  c.shift / 8 = 3 - d.shift / 8 ∧ c.shift % 8 = d.shift % 8 ∧
    c.shift / 8 = (c.shift + c.bits - 1) / 8

instance (c d : Channel) : Decidable (sameByte c d) := inferInstanceAs (Decidable (_ ∧ _))

def equal : Prop :=
  (pf.depth = other.depth ∧ pf.redMax = other.redMax ∧ pf.greenMax = other.greenMax ∧
    pf.blueMax = other.blueMax) ∧
  if pf.bigEndian = other.bigEndian ∨ width = .bpp8 then
    pf.redShift = other.redShift ∧ pf.greenShift = other.greenShift ∧
      pf.blueShift = other.blueShift
  else
    sameByte pf.red other.red ∧ sameByte pf.green other.green ∧ sameByte pf.blue other.blue

instance : Decidable (pf.equal other) := inferInstanceAs (Decidable (_ ∧ _))

def pixelFromBuffer (buffer : RawPixel width.bytes) : Pixel :=
  pixelFromBytes (if pf.bigEndian then buffer.val.reverse else buffer.val)

/-- The bytes of a pixel, the least significant one first. -/
def pixelBytes (n : ℕ) (p : Pixel) : List Byte :=
  (List.range n).map fun i => p.extractLsb' (8 * i) 8

def bufferFromPixel (p : Pixel) : RawPixel width.bytes :=
  ⟨if pf.bigEndian then (pixelBytes width.bytes p).reverse else pixelBytes width.bytes p, by
    split <;> simp [pixelBytes]⟩

/-- One channel in `pixelFromRGB`, from 16 bits. -/
def channelFrom (c : Channel) (v : BitVec 16) : Pixel :=
  BitVec.ofNat 32 (downconv c.bits (v >>> 8).toNat) <<< c.shift

def pixelFromRGB (red green blue : BitVec 16) : Pixel :=
  channelFrom pf.red red ||| channelFrom pf.green green ||| channelFrom pf.blue blue

/-- One channel in `rgbFromPixel`. -/
def channelOf (c : Channel) (p : Pixel) : Byte :=
  BitVec.ofNat 8 (upconv c.bits ((p >>> c.shift).toNat % 256))

def rgbFromPixel (p : Pixel) : List Byte := pf.channels.map fun c => channelOf c p

/-- Where the byte of a channel is in memory, if the format `is888`. -/
def channelByte (c : Channel) : ℕ := if pf.bigEndian then (24 - c.shift) / 8 else c.shift / 8

/-- Where the byte is that holds no channel. -/
def unusedByte : ℕ :=
  let unused := 48 - pf.redShift - pf.greenShift - pf.blueShift
  if pf.bigEndian then (24 - unused) / 8 else unused / 8

/-- `rgbFromBuffer` for an `is888` format and one pixel. -/
def rgbFromBuffer (src : RawPixel width.bytes) : List Byte :=
  pf.channels.map fun c => src.val.getD (pf.channelByte c) 0

/-- `bufferFromRGB` for an `is888` format and one pixel. -/
def bufferFromRGB (src : List Byte) : RawPixel width.bytes :=
  ⟨((((default : RawPixel width.bytes).val.set (pf.channelByte pf.red) (src.getD 0 0)).set
    (pf.channelByte pf.green) (src.getD 1 0)).set
    (pf.channelByte pf.blue) (src.getD 2 0)).set pf.unusedByte 0, by
    simp only [List.length_set, (default : RawPixel width.bytes).property]⟩

/-- The colour channels of a pixel in memory. -/
def rgb (v : RawPixel width.bytes) : List Byte := pf.rgbFromPixel (pf.pixelFromBuffer v)

end PixelFormatOf

/-! ## Bits in memory -/

/-- A bit of a number that is given by its bytes. -/
theorem getLsbD_pixelFromBytes : ∀ {bytes : List Byte} {j : ℕ}, j < 32 →
    (pixelFromBytes bytes).getLsbD j = (bytes.getD (j / 8) 0).getLsbD (j % 8)
  | [], j, _ => by simp [pixelFromBytes]
  | b :: bytes, j, hj => by
    rw [pixelFromBytes, BitVec.getLsbD_or, BitVec.getLsbD_shiftLeft, BitVec.getLsbD_setWidth]
    by_cases hlow : j < 8
    · have hdiv : j / 8 = 0 := Nat.div_eq_of_lt hlow
      rw [hdiv, Nat.mod_eq_of_lt hlow, List.getD_cons_zero]
      simp [hlow, hj]
    · have hdiv : j / 8 = (j - 8) / 8 + 1 := by omega
      have hmod : j % 8 = (j - 8) % 8 := by omega
      rw [hdiv, hmod, List.getD_cons_succ, ← getLsbD_pixelFromBytes (by omega)]
      have hge : b.getLsbD j = false := BitVec.getLsbD_of_ge b j (by omega)
      simp [hlow, hj, hge]

namespace PixelFormatOf

variable {width : PixelWidth} {pf other : PixelFormatOf width}

/-- The place in memory of the byte with a bit. -/
def place (pf : PixelFormatOf width) (j : ℕ) : ℕ :=
  if pf.bigEndian then width.bytes - 1 - j / 8 else j / 8

theorem place_lt {j : ℕ} (hj : j < 8 * width.bytes) : pf.place j < width.bytes := by
  unfold place
  split <;> omega

/-- Bits in the same place of the same byte are the same. -/
theorem place_inj {i j : ℕ} (hi : i < 8 * width.bytes) (hj : j < 8 * width.bytes)
    (hplace : pf.place i = pf.place j) (hmod : i % 8 = j % 8) : i = j := by
  unfold place at hplace
  by_cases hbig : pf.bigEndian = true
  · rw [if_pos hbig, if_pos hbig] at hplace
    omega
  · rw [if_neg hbig, if_neg hbig] at hplace
    omega

theorem getLsbD_pixelFromBuffer (v : RawPixel width.bytes) {j : ℕ} (hj : j < 8 * width.bytes) :
    (pf.pixelFromBuffer v).getLsbD j = (v.val.getD (pf.place j) 0).getLsbD (j % 8) := by
  have hle := width.bytes_le
  unfold pixelFromBuffer place
  rw [getLsbD_pixelFromBytes (by omega)]
  by_cases hbig : pf.bigEndian = true
  · rw [if_pos hbig, if_pos hbig]
    have hlen := v.property
    congr 1
    simp only [List.getD_eq_getElem?_getD]
    rw [List.getElem?_reverse (by omega), hlen]
  · rw [if_neg hbig, if_neg hbig]

theorem pixelBytes_getD {n : ℕ} (p : Pixel) {i : ℕ} (hi : i < n) :
    (pixelBytes n p).getD i 0 = p.extractLsb' (8 * i) 8 := by
  simp [pixelBytes, hi]

/-- Where the bits of a pixel are put. -/
theorem getLsbD_bufferFromPixel (p : Pixel) {j : ℕ} (hj : j < 8 * width.bytes) :
    ((pf.bufferFromPixel p).val.getD (pf.place j) 0).getLsbD (j % 8) = p.getLsbD j := by
  have hbit : (p.extractLsb' (8 * (j / 8)) 8).getLsbD (j % 8) = p.getLsbD j := by
    have hsum : 8 * (j / 8) + j % 8 = j := by omega
    have hmod : j % 8 < 8 := Nat.mod_lt _ (by decide)
    rw [BitVec.getLsbD_extractLsb', hsum]
    simp [hmod]
  unfold bufferFromPixel place
  by_cases hbig : pf.bigEndian = true
  · have hlen : (pixelBytes width.bytes p).length = width.bytes := by simp [pixelBytes]
    simp only [hbig, if_true]
    rw [List.getD_eq_getElem?_getD, List.getElem?_reverse (by omega), hlen,
      ← List.getD_eq_getElem?_getD]
    have hplace : width.bytes - 1 - (width.bytes - 1 - j / 8) = j / 8 := by omega
    rw [hplace, pixelBytes_getD p (by omega), hbit]
  · simp only [hbig, if_false, Bool.false_eq_true]
    rw [pixelBytes_getD p (by omega), hbit]

/-! ## Channels -/

theorem bits_of_sane : ∀ value : Fin 256, value.val &&& (value.val + 1) = 0 →
    1 ≤ bits (BitVec.ofNat 16 value.val) ∧ bits (BitVec.ofNat 16 value.val) ≤ 8 := by
  decide +kernel

/-- A channel has up to 8 bits, all of them in the pixel. -/
theorem channel_bounds {c : Channel} (hc : c ∈ pf.channels) :
    (1 ≤ c.bits ∧ c.bits ≤ 8) ∧ c.shift + c.bits ≤ 8 * width.bytes := by
  have hsane := pf.sane
  simp only [PixelFormatFields.isSane, Bool.and_eq_true, decide_eq_true_iff, pf.bpp_eq] at hsane
  obtain ⟨⟨⟨⟨⟨⟨⟨⟨⟨⟨⟨⟨⟨⟨⟨-, -⟩, -⟩, hred⟩, hgreen⟩, hblue⟩, hredLt⟩, hgreenLt⟩, hblueLt⟩, -⟩,
    hredFit⟩, hgreenFit⟩, hblueFit⟩, -⟩, -⟩, -⟩ := hsane
  unfold channels at hc
  simp only [List.mem_cons, List.not_mem_nil, or_false] at hc
  rcases hc with rfl | rfl | rfl
  · exact ⟨bits_of_sane ⟨pf.redMax, hredLt⟩ hred, by rw [Nat.add_comm]; exact hredFit⟩
  · exact ⟨bits_of_sane ⟨pf.greenMax, hgreenLt⟩ hgreen, by rw [Nat.add_comm]; exact hgreenFit⟩
  · exact ⟨bits_of_sane ⟨pf.blueMax, hblueLt⟩ hblue, by rw [Nat.add_comm]; exact hblueFit⟩

/-- The table looks at no other bits than those of the channel. -/
theorem channelOf_congr {c d : Channel} {p q : Pixel} (hbits : c.bits = d.bits) (hle : c.bits ≤ 8)
    (h : ∀ u < c.bits, p.getLsbD (c.shift + u) = q.getLsbD (d.shift + u)) :
    channelOf c p = channelOf d q := by
  have hdvd : 2 ^ c.bits ∣ 256 := Nat.pow_dvd_pow 2 hle
  have hmod : (p >>> c.shift).toNat % 256 % 2 ^ c.bits =
      (q >>> d.shift).toNat % 256 % 2 ^ c.bits := by
    rw [Nat.mod_mod_of_dvd _ hdvd, Nat.mod_mod_of_dvd _ hdvd]
    refine Nat.eq_of_testBit_eq fun u => ?_
    rw [Nat.testBit_mod_two_pow, Nat.testBit_mod_two_pow]
    by_cases hu : u < c.bits
    · have hpu : (p >>> c.shift).toNat.testBit u = p.getLsbD (c.shift + u) := by
        rw [BitVec.testBit_toNat, BitVec.getLsbD_ushiftRight]
      have hqu : (q >>> d.shift).toNat.testBit u = q.getLsbD (d.shift + u) := by
        rw [BitVec.testBit_toNat, BitVec.getLsbD_ushiftRight]
      rw [hpu, hqu, h u hu]
    · simp [hu]
  unfold channelOf upconv
  rw [← hbits, hmod]

/-- Colours agree as soon as the bytes with channel bits do. -/
theorem rgb_congr {v w : RawPixel width.bytes}
    (h : ∀ c ∈ pf.channels, ∀ u < c.bits,
      v.val.getD (pf.place (c.shift + u)) 0 = w.val.getD (pf.place (c.shift + u)) 0) :
    pf.rgb v = pf.rgb w := by
  unfold rgb rgbFromPixel
  refine List.map_congr_left fun c hc => ?_
  obtain ⟨⟨-, hle⟩, hfits⟩ := channel_bounds hc
  refine channelOf_congr rfl hle fun u hu => ?_
  rw [getLsbD_pixelFromBuffer v (by omega), getLsbD_pixelFromBuffer w (by omega), h c hc u hu]

/-! ## Equal formats -/

/-- The channels of equal formats are found in the same bits in memory. -/
theorem place_eq {c d : Channel} {u : ℕ} (hu : u < c.bits) (hc : c.shift + c.bits ≤ 8 * width.bytes)
    (hd : d.shift + c.bits ≤ 8 * width.bytes)
    (h : if pf.bigEndian = other.bigEndian ∨ width = .bpp8 then c.shift = d.shift
      else sameByte c d) :
    pf.place (c.shift + u) = other.place (d.shift + u) ∧
      (c.shift + u) % 8 = (d.shift + u) % 8 := by
  unfold place
  by_cases hsame : pf.bigEndian = other.bigEndian ∨ width = .bpp8
  · rw [if_pos hsame] at h
    rw [h]
    refine ⟨?_, rfl⟩
    rcases hsame with hend | hw
    · rw [hend]
    · subst hw
      have hbytes : PixelWidth.bytes .bpp8 = 1 := rfl
      rw [hbytes] at hd ⊢
      split_ifs <;> omega
  · rw [if_neg hsame] at h
    obtain ⟨hbyte, hmod, hone⟩ := h
    rw [not_or] at hsame
    have h32 : width.bytes = 4 := by
      cases width with
      | bpp8 => exact absurd rfl hsame.2
      | bpp16 =>
        have hbytes : PixelWidth.bytes .bpp16 = 2 := rfl
        rw [hbytes] at hc hd
        omega
      | bpp32 => rfl
    rw [h32] at hc hd ⊢
    refine ⟨?_, by omega⟩
    cases hpf : pf.bigEndian <;> cases hother : other.bigEndian
    · exact absurd (hpf.trans hother.symm) hsame.1
    · rw [if_neg Bool.false_ne_true, if_pos rfl]
      omega
    · rw [if_pos rfl, if_neg Bool.false_ne_true]
      omega
    · exact absurd (hpf.trans hother.symm) hsame.1

/-- A channel and the one of an equal format, in the same colour. -/
def Matches (pf other : PixelFormatOf width) (c d : Channel) : Prop :=
  c ∈ pf.channels ∧ d ∈ other.channels ∧ c.bits = d.bits ∧
    ∀ u < c.bits, pf.place (c.shift + u) = other.place (d.shift + u) ∧
      (c.shift + u) % 8 = (d.shift + u) % 8

theorem matches_of_equal (h : pf.equal other) : Matches pf other pf.red other.red ∧
    Matches pf other pf.green other.green ∧ Matches pf other pf.blue other.blue := by
  obtain ⟨⟨-, hred, hgreen, hblue⟩, hshift⟩ := h
  have hone : ∀ {c d : Channel}, c ∈ pf.channels → d ∈ other.channels → c.max = d.max →
      (if pf.bigEndian = other.bigEndian ∨ width = .bpp8 then c.shift = d.shift
        else sameByte c d) → Matches pf other c d := by
    intro c d hc hd hmax hsh
    have hbits : c.bits = d.bits := congrArg Rfb.bits hmax
    obtain ⟨-, hcfit⟩ := channel_bounds hc
    obtain ⟨-, hdfit⟩ := channel_bounds hd
    exact ⟨hc, hd, hbits, fun u hu => place_eq hu hcfit (hbits ▸ hdfit) hsh⟩
  by_cases hsame : pf.bigEndian = other.bigEndian ∨ width = .bpp8
  · simp only [if_pos hsame] at hshift hone
    exact ⟨hone (by simp [channels]) (by simp [channels]) (congrArg (BitVec.ofNat 16) hred)
        hshift.1,
      hone (by simp [channels]) (by simp [channels]) (congrArg (BitVec.ofNat 16) hgreen) hshift.2.1,
      hone (by simp [channels]) (by simp [channels]) (congrArg (BitVec.ofNat 16) hblue) hshift.2.2⟩
  · simp only [if_neg hsame] at hshift hone
    exact ⟨hone (by simp [channels]) (by simp [channels]) (congrArg (BitVec.ofNat 16) hred)
        hshift.1,
      hone (by simp [channels]) (by simp [channels]) (congrArg (BitVec.ofNat 16) hgreen) hshift.2.1,
      hone (by simp [channels]) (by simp [channels]) (congrArg (BitVec.ofNat 16) hblue) hshift.2.2⟩

theorem equal_refl (pf : PixelFormatOf width) : pf.equal pf := by
  refine ⟨⟨rfl, rfl, rfl, rfl⟩, ?_⟩
  rw [if_pos (Or.inl rfl)]
  exact ⟨rfl, rfl, rfl⟩

/-- **Equal formats** show the same colours in the same bytes. -/
theorem equal_rgb (h : pf.equal other) (v : RawPixel width.bytes) : pf.rgb v = other.rgb v := by
  have hone : ∀ {c d : Channel}, Matches pf other c d →
      channelOf c (pf.pixelFromBuffer v) = channelOf d (other.pixelFromBuffer v) := by
    intro c d hcd
    obtain ⟨hc, hd, hbits, hplace⟩ := hcd
    obtain ⟨⟨-, hle⟩, hcfit⟩ := channel_bounds hc
    obtain ⟨-, hdfit⟩ := channel_bounds hd
    refine channelOf_congr hbits hle fun u hu => ?_
    obtain ⟨hpl, hmod⟩ := hplace u hu
    rw [getLsbD_pixelFromBuffer v (by omega), getLsbD_pixelFromBuffer v (by omega), hpl, hmod]
  obtain ⟨hred, hgreen, hblue⟩ := matches_of_equal h
  simp only [rgb, rgbFromPixel, channels, List.map_cons, List.map_nil, hone hred, hone hgreen,
    hone hblue]

/-! ## Three bytes for a pixel -/

theorem shifts_ne : ∀ i j : Fin 4, (255 <<< (8 * i.val)) &&& (255 <<< (8 * j.val)) = 0 → i ≠ j := by
  decide

theorem max_eq {n : ℕ} (hlt : n < 256) (h : BitVec.ofNat 16 n = 255) : n = 255 := by
  have hnat := congrArg BitVec.toNat h
  rw [BitVec.toNat_ofNat, Nat.mod_eq_of_lt (by omega)] at hnat
  exact hnat

/-- The channels of an `is888` format are different bytes, in any order. -/
theorem shifts_of_888 (h : pf.is888) : ∃ i j l : Fin 4, (i ≠ j ∧ i ≠ l ∧ j ≠ l) ∧
    pf.redShift = 8 * i.val ∧ pf.greenShift = 8 * j.val ∧ pf.blueShift = 8 * l.val := by
  obtain ⟨-, rfl, -, hall⟩ := h
  have hsane := pf.sane
  simp only [PixelFormatFields.isSane, Bool.and_eq_true, decide_eq_true_iff, pf.bpp_eq] at hsane
  obtain ⟨⟨⟨⟨⟨⟨⟨⟨⟨⟨-, hredLt⟩, hgreenLt⟩, hblueLt⟩, -⟩, hredFit⟩, hgreenFit⟩, hblueFit⟩, hrg⟩, hrb⟩,
    hgb⟩ := hsane
  unfold channels at hall
  simp only [List.forall_mem_cons] at hall
  obtain ⟨⟨hredMax, hredMod⟩, ⟨hgreenMax, hgreenMod⟩, ⟨hblueMax, hblueMod⟩, -⟩ := hall
  rw [max_eq hredLt hredMax] at hredFit hrg hrb
  rw [max_eq hgreenLt hgreenMax] at hgreenFit hrg hgb
  rw [max_eq hblueLt hblueMax] at hblueFit hrb hgb
  have hbits : bits (BitVec.ofNat 16 255) = 8 := by decide
  have hbytes : PixelWidth.bytes .bpp32 = 4 := rfl
  rw [hbits, hbytes] at hredFit hgreenFit hblueFit
  have hbyte : ∀ {s : ℕ}, 8 + s ≤ 8 * 4 → s % 8 = 0 → ∃ i : Fin 4, s = 8 * i.val :=
    fun {s} hle hmod => ⟨⟨s / 8, by omega⟩, by dsimp only; omega⟩
  obtain ⟨i, hi⟩ := hbyte hredFit hredMod
  obtain ⟨j, hj⟩ := hbyte hgreenFit hgreenMod
  obtain ⟨l, hl⟩ := hbyte hblueFit hblueMod
  rw [hi, hj] at hrg
  rw [hi, hl] at hrb
  rw [hj, hl] at hgb
  exact ⟨i, j, l, ⟨shifts_ne i j hrg, shifts_ne i l hrb, shifts_ne j l hgb⟩, hi, hj, hl⟩

/-- The bytes of a pixel, those of the channels first. -/
def places (pf : PixelFormatOf width) : List ℕ :=
  [pf.channelByte pf.red, pf.channelByte pf.green, pf.channelByte pf.blue, pf.unusedByte]

theorem perm_of_ne : ∀ i j l : Fin 4, i ≠ j ∧ i ≠ l ∧ j ≠ l →
    [i.val, j.val, l.val, 6 - i.val - j.val - l.val].Perm (List.range 4) ∧
      [3 - i.val, 3 - j.val, 3 - l.val, 3 - (6 - i.val - j.val - l.val)].Perm (List.range 4) := by
  decide

/-- There are four of them. -/
theorem places_perm (h : pf.is888) : pf.places.Perm (List.range 4) := by
  obtain ⟨i, j, l, hne, hred, hgreen, hblue⟩ := shifts_of_888 h
  obtain ⟨hlittle, hbig⟩ := perm_of_ne i j l hne
  have hbyte : ∀ n : ℕ, 8 * n / 8 = n ∧ (24 - 8 * n) / 8 = 3 - n := fun n => by omega
  have hunused : 48 - 8 * i.val - 8 * j.val - 8 * l.val = 8 * (6 - i.val - j.val - l.val) := by
    omega
  simp only [places, channelByte, unusedByte, PixelFormatOf.red, PixelFormatOf.green,
    PixelFormatOf.blue, hred, hgreen, hblue, hunused, (hbyte _).1, (hbyte _).2]
  cases pf.bigEndian with
  | false => exact hlittle
  | true => exact hbig

theorem places_distinct (h : pf.is888) : (∀ p ∈ pf.places, p < 4) ∧
    (pf.channelByte pf.red ≠ pf.channelByte pf.green ∧
      pf.channelByte pf.red ≠ pf.channelByte pf.blue ∧
      pf.channelByte pf.green ≠ pf.channelByte pf.blue) ∧
    pf.unusedByte ≠ pf.channelByte pf.red ∧ pf.unusedByte ≠ pf.channelByte pf.green ∧
      pf.unusedByte ≠ pf.channelByte pf.blue := by
  have hperm := places_perm h
  have hnodup := hperm.nodup_iff.mpr List.nodup_range
  simp only [places, List.nodup_cons, List.mem_cons, List.not_mem_nil, or_false, not_or] at hnodup
  obtain ⟨⟨hrg, hrb, hrx⟩, ⟨hgb, hgx⟩, hbx, -⟩ := hnodup
  exact ⟨fun p hp => List.mem_range.mp (hperm.mem_iff.mp hp), ⟨hrg, hrb, hgb⟩, Ne.symm hrx,
    Ne.symm hgx, Ne.symm hbx⟩

/-- Bytes written to different places. -/
theorem getD_set_three {l : List Byte} {a b c x : ℕ} (ha : a < l.length) (hb : b < l.length)
    (hc : c < l.length) (hne : a ≠ b ∧ a ≠ c ∧ b ≠ c) (hx : x ≠ a ∧ x ≠ b ∧ x ≠ c)
    (red green blue unused : Byte) :
    let l' := (((l.set a red).set b green).set c blue).set x unused
    l'.getD a 0 = red ∧ l'.getD b 0 = green ∧ l'.getD c 0 = blue := by
  obtain ⟨hab, hac, hbc⟩ := hne
  obtain ⟨hxa, hxb, hxc⟩ := hx
  simp [ha, hb, hc, hab.symm, hac.symm, hbc.symm, hxa, hxb, hxc]

/-- The three bytes of a pixel are put back where they were taken from. -/
theorem getD_bufferFromRGB (h : pf.is888) (v : RawPixel width.bytes) : ∀ c ∈ pf.channels,
    (pf.bufferFromRGB (pf.rgbFromBuffer v)).val.getD (pf.channelByte c) 0 =
      v.val.getD (pf.channelByte c) 0 := by
  obtain ⟨hlt, hne, hx⟩ := places_distinct h
  obtain ⟨-, rfl, -, -⟩ := h
  have hlen : (default : RawPixel (PixelWidth.bytes .bpp32)).val.length = 4 := rfl
  simp only [places, List.forall_mem_cons] at hlt
  obtain ⟨hr, hg, hb, -⟩ := hlt
  obtain ⟨hgetr, hgetg, hgetb⟩ := getD_set_three (hlen.symm ▸ hr) (hlen.symm ▸ hg)
    (hlen.symm ▸ hb) hne hx ((pf.rgbFromBuffer v).getD 0 0)
    ((pf.rgbFromBuffer v).getD 1 0) ((pf.rgbFromBuffer v).getD 2 0) 0
  unfold channels
  simp only [List.forall_mem_cons]
  exact ⟨hgetr, hgetg, hgetb, fun _ hc => nomatch hc⟩

/-- The byte of a channel in memory. -/
theorem place_of_888 (h : pf.is888) {c : Channel} (hc : c ∈ pf.channels) {u : ℕ} (hu : u < 8) :
    pf.place (c.shift + u) = pf.channelByte c := by
  obtain ⟨-, rfl, -, hall⟩ := h
  obtain ⟨-, hmod⟩ := hall c hc
  have hbytes : PixelWidth.bytes .bpp32 = 4 := rfl
  unfold place channelByte
  rw [hbytes]
  split <;> omega

theorem bits_of_888 (h : pf.is888) {c : Channel} (hc : c ∈ pf.channels) : c.bits = 8 := by
  obtain ⟨-, -, -, hall⟩ := h
  unfold Channel.bits
  rw [(hall c hc).1]
  decide

/-- **Three bytes for a pixel** keep its colours. -/
theorem rgb_bufferFromRGB (h : pf.is888) (v : RawPixel width.bytes) :
    pf.rgb (pf.bufferFromRGB (pf.rgbFromBuffer v)) = pf.rgb v := by
  refine rgb_congr fun c hc u hu => ?_
  rw [bits_of_888 h hc] at hu
  rw [place_of_888 h hc hu, getD_bufferFromRGB h v c hc]

/-- The table leaves a channel of 8 bits as it is. -/
theorem getLsbD_channelOf {c : Channel} (hbits : c.bits = 8) (p : Pixel) {t : ℕ} (ht : t < 8) :
    (channelOf c p).getLsbD t = p.getLsbD (c.shift + t) := by
  have hup : ∀ n : ℕ, upconv 8 n = n % 256 := fun n =>
    Nat.mul_div_cancel (n % 2 ^ 8) (by decide)
  unfold channelOf
  rw [hbits, hup, Nat.mod_mod, BitVec.getLsbD_ofNat, ← BitVec.getLsbD_ushiftRight,
    ← BitVec.testBit_toNat, show 256 = 2 ^ 8 from rfl, Nat.testBit_mod_two_pow]
  simp [ht]

/-- The colours of an `is888` pixel are three of its bytes. -/
theorem rgb_of_888 (h : pf.is888) (v : RawPixel width.bytes) : pf.rgb v = pf.rgbFromBuffer v := by
  unfold rgb rgbFromPixel rgbFromBuffer
  refine List.map_congr_left fun c hc => BitVec.eq_of_getLsbD_eq fun t ht => ?_
  obtain ⟨-, hfits⟩ := channel_bounds hc
  have hbits := bits_of_888 h hc
  have hmod : (c.shift + t) % 8 = t := by
    obtain ⟨-, -, -, hall⟩ := h
    have hshift := (hall c hc).2
    omega
  rw [getLsbD_channelOf hbits _ ht, getLsbD_pixelFromBuffer v (by omega), place_of_888 h hc ht,
    hmod]

/-- A format that has a depth of 24 is a true colour format. -/
theorem trueColour_of_depth (h : pf.depth = 24) : pf.trueColour = true := by
  have hsane := pf.sane
  simp only [PixelFormatFields.isSane, Bool.and_eq_true, Bool.or_eq_true, decide_eq_true_iff]
    at hsane
  have hcolour : pf.trueColour = true ∨ pf.depth = 8 := hsane.1.1.1.1.1.1.1.1.1.1.1.1.1.2
  exact hcolour.resolve_right (by omega)

theorem is888_of_equal (h : pf.equal other) : pf.is888 ↔ other.is888 := by
  obtain ⟨⟨hdepth, hred, hgreen, hblue⟩, hshift⟩ := h
  have hmod : pf.redShift % 8 = other.redShift % 8 ∧ pf.greenShift % 8 = other.greenShift % 8 ∧
      pf.blueShift % 8 = other.blueShift % 8 := by
    by_cases hsame : pf.bigEndian = other.bigEndian ∨ width = .bpp8
    · rw [if_pos hsame] at hshift
      obtain ⟨hr, hg, hb⟩ := hshift
      rw [hr, hg, hb]
      exact ⟨rfl, rfl, rfl⟩
    · rw [if_neg hsame] at hshift
      obtain ⟨hr, hg, hb⟩ := hshift
      exact ⟨hr.2.1, hg.2.1, hb.2.1⟩
  obtain ⟨hr, hg, hb⟩ := hmod
  simp only [is888, channels, PixelFormatOf.red, PixelFormatOf.green, PixelFormatOf.blue,
    List.forall_mem_cons, hdepth, hred, hgreen, hblue, hr, hg, hb]
  constructor
  · rintro ⟨-, hwidth, hdeep, hall⟩
    exact ⟨trueColour_of_depth hdeep, hwidth, hdeep, hall⟩
  · rintro ⟨-, hwidth, hdeep, hall⟩
    exact ⟨trueColour_of_depth (hdepth.trans hdeep), hwidth, hdeep, hall⟩

/-- Equal formats take the same three bytes of a pixel. -/
theorem rgbFromBuffer_eq (h : pf.equal other) (h888 : pf.is888) (v : RawPixel width.bytes) :
    pf.rgbFromBuffer v = other.rgbFromBuffer v := by
  have hother := (is888_of_equal h).mp h888
  have hone : ∀ {c d : Channel}, Matches pf other c d → pf.channelByte c = other.channelByte d := by
    intro c d hcd
    obtain ⟨hc, hd, -, hplace⟩ := hcd
    obtain ⟨hpl, -⟩ := hplace 0 (by rw [bits_of_888 h888 hc]; decide)
    rw [place_of_888 h888 hc (by decide), place_of_888 hother hd (by decide)] at hpl
    exact hpl
  obtain ⟨hred, hgreen, hblue⟩ := matches_of_equal h
  simp only [rgbFromBuffer, channels, List.map_cons, List.map_nil, hone hred, hone hgreen,
    hone hblue]

/-! ## The largest pixel -/

/-- `maxPixel`: all channels at their maximum. -/
def maxPixel (pf : PixelFormatOf width) : Pixel := pf.pixelFromRGB 0xffff 0xffff 0xffff

/-- `pixBuf`: the bytes of the largest pixel in memory. -/
def maxBuffer (pf : PixelFormatOf width) : RawPixel width.bytes := pf.bufferFromPixel pf.maxPixel

theorem getLsbD_channelFrom {c : Channel} (hle : c.bits ≤ 8) {j : ℕ} (hj : j < 32) :
    (channelFrom c 0xffff).getLsbD j = decide (c.shift ≤ j ∧ j < c.shift + c.bits) := by
  have hv : ((0xffff : BitVec 16) >>> 8).toNat = 255 := by decide
  have hpow : 2 ^ c.bits ≤ 2 ^ 8 := Nat.pow_le_pow_right Nat.two_pos hle
  have hdown : downconv c.bits 255 = 2 ^ c.bits - 1 := by
    unfold downconv
    omega
  unfold channelFrom
  rw [hv, hdown, BitVec.getLsbD_shiftLeft, BitVec.getLsbD_ofNat, Nat.testBit_two_pow_sub_one]
  by_cases hlo : c.shift ≤ j
  · have hiff : (j - c.shift < c.bits) = (j < c.shift + c.bits) := propext (by omega)
    have hlt : j - c.shift < 32 := by omega
    simp [hj, hlo, hiff, hlt]
  · have hlt : j < c.shift := by omega
    simp [hlo, hlt]

theorem getLsbD_maxPixel {j : ℕ} (hj : j < 32) :
    pf.maxPixel.getLsbD j = true ↔ ∃ c ∈ pf.channels, c.shift ≤ j ∧ j < c.shift + c.bits := by
  have hle : ∀ c ∈ pf.channels, c.bits ≤ 8 := fun c hc => (channel_bounds hc).1.2
  unfold channels at hle ⊢
  simp only [List.forall_mem_cons] at hle
  obtain ⟨hred, hgreen, hblue, -⟩ := hle
  unfold maxPixel pixelFromRGB
  rw [BitVec.getLsbD_or, BitVec.getLsbD_or, getLsbD_channelFrom hred hj,
    getLsbD_channelFrom hgreen hj, getLsbD_channelFrom hblue hj]
  simp [or_assoc]

/-- The bits of the largest pixel in memory are those of the channels. -/
theorem maxBuffer_bit {i t : ℕ} (hi : i < width.bytes) (ht : t < 8) :
    (pf.maxBuffer.val.getD i 0).getLsbD t = true ↔ ∃ c ∈ pf.channels, ∃ u < c.bits,
      pf.place (c.shift + u) = i ∧ (c.shift + u) % 8 = t := by
  have hbytes := width.bytes_le
  -- the bit of the pixel that is at this place
  obtain ⟨j, hj, hplace, hmod⟩ : ∃ j < 8 * width.bytes, pf.place j = i ∧ j % 8 = t := by
    refine ⟨8 * (if pf.bigEndian then width.bytes - 1 - i else i) + t, ?_, ?_, ?_⟩
    · split <;> omega
    · unfold place
      split <;> omega
    · omega
  have hbit := pf.getLsbD_bufferFromPixel pf.maxPixel hj
  rw [hplace, hmod] at hbit
  rw [maxBuffer, hbit, getLsbD_maxPixel (by omega)]
  constructor
  · rintro ⟨c, hc, hlo, hhi⟩
    refine ⟨c, hc, j - c.shift, by omega, ?_, ?_⟩
    · rw [Nat.add_sub_cancel' hlo, hplace]
    · rw [Nat.add_sub_cancel' hlo, hmod]
  · rintro ⟨c, hc, u, hu, hpl, hm⟩
    obtain ⟨-, hfit⟩ := channel_bounds hc
    have heq : c.shift + u = j :=
      place_inj (by omega) hj (hpl.trans hplace.symm) (hm.trans hmod.symm)
    exact ⟨c, hc, by omega, by omega⟩

/-- Where the largest pixel has a zero byte, there are no channel bits. -/
theorem place_ne_of_zero {i : ℕ} (hzero : pf.maxBuffer.val.getD i 0 = 0) (hi : i < width.bytes) :
    ∀ c ∈ pf.channels, ∀ u < c.bits, pf.place (c.shift + u) ≠ i := by
  intro c hc u hu hplace
  have hmod : (c.shift + u) % 8 < 8 := Nat.mod_lt _ (by decide)
  have hbit := (maxBuffer_bit hi hmod).mpr ⟨c, hc, u, hu, hplace, rfl⟩
  rw [hzero] at hbit
  simp at hbit

theorem equal_maxBuffer (h : pf.equal other) : pf.maxBuffer = other.maxBuffer := by
  obtain ⟨hred, hgreen, hblue⟩ := matches_of_equal h
  have hmatch : ∀ c ∈ pf.channels, ∃ d, Matches pf other c d := by
    unfold channels
    simp only [List.forall_mem_cons]
    exact ⟨⟨_, hred⟩, ⟨_, hgreen⟩, ⟨_, hblue⟩, fun _ hc => nomatch hc⟩
  have hmatch' : ∀ d ∈ other.channels, ∃ c, Matches pf other c d := by
    unfold channels
    simp only [List.forall_mem_cons]
    exact ⟨⟨_, hred⟩, ⟨_, hgreen⟩, ⟨_, hblue⟩, fun _ hc => nomatch hc⟩
  have hbytes : ∀ i < width.bytes,
      pf.maxBuffer.val.getD i 0 = other.maxBuffer.val.getD i 0 := by
    intro i hi
    refine BitVec.eq_of_getLsbD_eq fun t ht => ?_
    rw [Bool.eq_iff_iff, maxBuffer_bit hi ht, maxBuffer_bit hi ht]
    constructor
    · rintro ⟨c, hc, u, hu, hplace, hmod⟩
      obtain ⟨d, -, hd, hbits, hsame⟩ := hmatch c hc
      obtain ⟨hpl, hm⟩ := hsame u hu
      exact ⟨d, hd, u, hbits ▸ hu, hpl ▸ hplace, hm ▸ hmod⟩
    · rintro ⟨d, hd, u, hu, hplace, hmod⟩
      obtain ⟨c, hc, -, hbits, hsame⟩ := hmatch' d hd
      have huc : u < c.bits := hbits ▸ hu
      obtain ⟨hpl, hm⟩ := hsame u huc
      exact ⟨c, hc, u, huc, hpl.trans hplace, hm.trans hmod⟩
  refine Subtype.ext (List.ext_getElem? fun i => ?_)
  have hlen := pf.maxBuffer.property
  have hlen' := other.maxBuffer.property
  by_cases hi : i < width.bytes
  · have hsame := hbytes i hi
    rw [List.getD_eq_getElem _ _ (by omega), List.getD_eq_getElem _ _ (by omega)] at hsame
    rw [List.getElem?_eq_getElem (by omega), List.getElem?_eq_getElem (by omega), hsame]
  · rw [List.getElem?_eq_none (by omega), List.getElem?_eq_none (by omega)]

/-- Only the maximum of a channel is shown as 255. -/
theorem upconv_eq {b x : ℕ} (hpos : 1 ≤ b) (hle : b ≤ 8) :
    BitVec.ofNat 8 (upconv b x) = 255 ↔ x % 2 ^ b = 2 ^ b - 1 := by
  have hlo : 2 ^ 1 ≤ 2 ^ b := Nat.pow_le_pow_right Nat.two_pos hpos
  have hhi : 2 ^ b ≤ 2 ^ 8 := Nat.pow_le_pow_right Nat.two_pos hle
  have hmod : x % 2 ^ b < 2 ^ b := Nat.mod_lt _ (by omega)
  have hquot : upconv b x ≤ 255 := by
    refine Nat.div_le_of_le_mul ?_
    have hmul := Nat.mul_le_mul_right 255 (Nat.le_sub_one_of_lt hmod)
    omega
  have hvalue : BitVec.ofNat 8 (upconv b x) = 255 ↔ upconv b x = 255 := by
    constructor
    · intro h
      have hnat := congrArg BitVec.toNat h
      rw [BitVec.toNat_ofNat, Nat.mod_eq_of_lt (by omega)] at hnat
      exact hnat
    · intro h
      rw [h]
      rfl
  rw [hvalue]
  constructor
  · intro h
    have hmul := Nat.div_mul_le_self (x % 2 ^ b * 255) (2 ^ b - 1)
    rw [show x % 2 ^ b * 255 / (2 ^ b - 1) = 255 from h] at hmul
    omega
  · intro h
    unfold upconv
    rw [h, Nat.mul_div_cancel_left _ (by omega)]

/-- A channel is shown as 255 if all its bits are set. -/
theorem channelOf_eq_max {c : Channel} (hpos : 1 ≤ c.bits) (hle : c.bits ≤ 8) {p : Pixel} :
    channelOf c p = 255 ↔ ∀ u < c.bits, p.getLsbD (c.shift + u) = true := by
  have hdvd : 2 ^ c.bits ∣ 256 := Nat.pow_dvd_pow 2 hle
  unfold channelOf
  rw [upconv_eq hpos hle, Nat.mod_mod_of_dvd _ hdvd]
  have hbit : ∀ u, ((p >>> c.shift).toNat % 2 ^ c.bits).testBit u =
      (decide (u < c.bits) && p.getLsbD (c.shift + u)) := by
    intro u
    rw [Nat.testBit_mod_two_pow, BitVec.testBit_toNat, BitVec.getLsbD_ushiftRight]
  constructor
  · intro h u hu
    have hb := hbit u
    rw [h, Nat.testBit_two_pow_sub_one] at hb
    simpa [hu] using hb.symm
  · intro h
    refine Nat.eq_of_testBit_eq fun u => ?_
    rw [hbit, Nat.testBit_two_pow_sub_one]
    by_cases hu : u < c.bits
    · rw [h u hu]
      simp
    · simp [hu]

/-- A pixel that shows the colours of the largest one has all channel bits set. -/
theorem bits_of_rgb_max {v : RawPixel width.bytes} (h : pf.rgb v = pf.rgb pf.maxBuffer) :
    ∀ c ∈ pf.channels, ∀ u < c.bits, (v.val.getD (pf.place (c.shift + u)) 0).getLsbD
      ((c.shift + u) % 8) = true := by
  unfold rgb rgbFromPixel at h
  intro c hc u hu
  have hbytes := width.bytes_le
  have hchannel := List.map_inj_left.mp h c hc
  obtain ⟨⟨hpos, hle⟩, hfit⟩ := channel_bounds hc
  have hmax : channelOf c (pf.pixelFromBuffer pf.maxBuffer) = 255 := by
    refine (channelOf_eq_max hpos hle).mpr fun u hu => ?_
    rw [getLsbD_pixelFromBuffer _ (by omega), maxBuffer, getLsbD_bufferFromPixel _ (by omega),
      getLsbD_maxPixel (by omega)]
    exact ⟨c, hc, by omega, by omega⟩
  rw [← getLsbD_pixelFromBuffer v (by omega)]
  exact (channelOf_eq_max hpos hle).mp (hchannel.trans hmax) u hu

end PixelFormatOf

end KasmVNC.Rfb
