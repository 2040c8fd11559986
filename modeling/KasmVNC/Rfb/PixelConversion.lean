import KasmVNC.Lib.Memory
import KasmVNC.Rfb.PixelArithmetic
import Mathlib.Tactic.IntervalCases

/-!
# Fast pixel conversion

`bufferFromBuffer` converts an area of pixels from one format to another. Equal formats are
copied, two formats of three whole bytes are shuffled, and if one of the two has that form the
other one is read or written as an integer of the host. `bufferFromRGB` and `rgbFromBuffer`
have a shortcut of that kind as well. All of them write, in the bits of the channels, what the
plain conversion of each pixel gives, and they stay within the area.
-/

namespace KasmVNC.Rfb

open KasmVNC.Lib

/-- The pixel at an address. -/
def loadPixel (m : Memory Byte) (a : ℤ) (k : ℕ) : RawPixel k := ⟨m.load a k, Memory.length_load ..⟩

theorem loadPixel_getD (m : Memory Byte) (a : ℤ) {k i : ℕ} (hi : i < k) :
    (loadPixel m a k).val.getD i 0 = m (a + i) := by
  simp [loadPixel, Memory.load, hi]

namespace PixelFormatOf

variable {width width' : PixelWidth}

/-! ## Integers of the host -/

/-- `hostBig` says that the host is big endian. -/
def endianMismatch (pf : PixelFormatOf width) (hostBig : Bool) : Bool := hostBig != pf.bigEndian

def SWAP16 (n : Pixel) : Pixel := (n &&& 0xff) <<< 8 ||| (n >>> 8) &&& 0xff

def SWAP32 (n : Pixel) : Pixel :=
  n >>> 24 ||| (n &&& 0x00ff0000) >>> 8 ||| (n &&& 0x0000ff00) <<< 8 ||| n <<< 24

/-- `SWAPIN` and `SWAPOUT`. -/
def swapBytes : PixelWidth → Pixel → Pixel
  | .bpp8, n => n
  | .bpp16, n => SWAP16 n
  | .bpp32, n => SWAP32 n

/-- What a `U8`, `U16` or `U32` is in memory. -/
def nativeBytes (hostBig : Bool) (k : ℕ) (p : Pixel) : List Byte :=
  if hostBig then (pixelBytes k p).reverse else pixelBytes k p

def nativePixel (hostBig : Bool) (bytes : List Byte) : Pixel :=
  pixelFromBytes (if hostBig then bytes.reverse else bytes)

theorem byte_SWAP16 (p : Pixel) {i : ℕ} (hi : i < 2) :
    (SWAP16 p).extractLsb' (8 * i) 8 = p.extractLsb' (8 * (1 - i)) 8 := by
  refine BitVec.eq_of_getLsbD_eq fun j hj => ?_
  interval_cases i <;> interval_cases j <;> simp [SWAP16]

theorem byte_SWAP32 (p : Pixel) {i : ℕ} (hi : i < 4) :
    (SWAP32 p).extractLsb' (8 * i) 8 = p.extractLsb' (8 * (3 - i)) 8 := by
  refine BitVec.eq_of_getLsbD_eq fun j hj => ?_
  interval_cases i <;> interval_cases j <;> simp [SWAP32]

/-- Swapping reverses the bytes of an integer. -/
theorem pixelBytes_swap (width : PixelWidth) (p : Pixel) :
    pixelBytes width.bytes (swapBytes width p) = (pixelBytes width.bytes p).reverse := by
  cases width with
  | bpp8 => rfl
  | bpp16 =>
    exact congrArg₂ List.cons (byte_SWAP16 p (show 0 < 2 by decide))
      (congrArg₂ List.cons (byte_SWAP16 p (show 1 < 2 by decide)) rfl)
  | bpp32 =>
    exact congrArg₂ List.cons (byte_SWAP32 p (show 0 < 4 by decide))
      (congrArg₂ List.cons (byte_SWAP32 p (show 1 < 4 by decide))
        (congrArg₂ List.cons (byte_SWAP32 p (show 2 < 4 by decide))
          (congrArg₂ List.cons (byte_SWAP32 p (show 3 < 4 by decide)) rfl)))

theorem swap_pixelFromBytes (v : RawPixel width.bytes) :
    swapBytes width (pixelFromBytes v.val) = pixelFromBytes v.val.reverse := by
  obtain ⟨bytes, hlen⟩ := v
  cases width with
  | bpp8 =>
    obtain ⟨a, rfl⟩ := List.length_eq_one_iff.mp hlen
    rfl
  | bpp16 =>
    obtain ⟨a, b, rfl⟩ := List.length_eq_two.mp hlen
    refine BitVec.eq_of_getLsbD_eq fun j hj => ?_
    interval_cases j <;> simp [swapBytes, SWAP16, pixelFromBytes]
  | bpp32 =>
    obtain ⟨a, tail, rfl⟩ := List.exists_cons_of_length_eq_add_one hlen
    obtain ⟨b, c, d, rfl⟩ := List.length_eq_three.mp (Nat.succ.inj hlen)
    refine BitVec.eq_of_getLsbD_eq fun j hj => ?_
    interval_cases j <;> simp [swapBytes, SWAP32, pixelFromBytes]

/-- An integer that was swapped where the byte orders differ is written as a pixel. -/
theorem nativeBytes_eq (pf : PixelFormatOf width) (hostBig : Bool) (p : Pixel) :
    nativeBytes hostBig width.bytes (if pf.endianMismatch hostBig then swapBytes width p else p) =
      (pf.bufferFromPixel p).val := by
  show _ = if pf.bigEndian then (pixelBytes width.bytes p).reverse else pixelBytes width.bytes p
  unfold nativeBytes endianMismatch
  cases hostBig <;> cases pf.bigEndian <;> simp [pixelBytes_swap]

theorem nativePixel_eq (pf : PixelFormatOf width) (hostBig : Bool) (v : RawPixel width.bytes) :
    (if pf.endianMismatch hostBig then swapBytes width (nativePixel hostBig v.val)
      else nativePixel hostBig v.val) = pf.pixelFromBuffer v := by
  have hreverse := swap_pixelFromBytes ⟨v.val.reverse, by rw [List.length_reverse, v.property]⟩
  rw [List.reverse_reverse] at hreverse
  unfold nativePixel endianMismatch pixelFromBuffer
  cases hostBig <;> cases pf.bigEndian <;> simp [swap_pixelFromBytes v, hreverse]

/-! ## The loops over an area -/

/-- Formats of different widths are never equal. -/
def equalTo (pf : PixelFormatOf width) (srcPF : PixelFormatOf width') : Prop :=
  ∃ h : width' = width, pf.equal (h ▸ srcPF)

instance (pf : PixelFormatOf width) (srcPF : PixelFormatOf width') : Decidable (pf.equalTo srcPF) :=
  inferInstanceAs (Decidable (∃ _, _))

/-- Four values, each assigned at the place of its channel. -/
def atPlaces {α : Type*} (pf : PixelFormatOf width) (a red green blue unused : α) : List α :=
  ((((List.replicate 4 a).set (pf.channelByte pf.red) red).set (pf.channelByte pf.green) green).set
    (pf.channelByte pf.blue) blue).set pf.unusedByte unused

/-- The pointers `d[0]` to `d[3]`, relative to `dst`. -/
def shufflePointers (pf : PixelFormatOf width) (srcPF : PixelFormatOf width') : List ℕ :=
  srcPF.atPlaces 0 (pf.channelByte pf.red) (pf.channelByte pf.green) (pf.channelByte pf.blue)
    pf.unusedByte

/-- One pixel of the byte shuffling. -/
def shufflePixel (pf : PixelFormatOf width) (srcPF : PixelFormatOf width') (srcMem : Memory Byte)
    (dst src : ℤ) (mem : Memory Byte) : Memory Byte :=
  mem.storeEach dst
    ((List.range 4).map fun n : ℕ => ((pf.shufflePointers srcPF).getD n 0, srcMem (src + n)))

/-- One pixel of `directBufferFromBufferFrom888`, where `d` is a `UOUT`. -/
def pixelFrom888 (pf : PixelFormatOf width) (hostBig : Bool) (srcPF : PixelFormatOf width')
    (srcMem : Memory Byte) (dst src : ℤ) (mem : Memory Byte) : Memory Byte :=
  let d := pf.pixelFromRGB8 (srcMem (src + srcPF.channelByte srcPF.red))
    (srcMem (src + srcPF.channelByte srcPF.green)) (srcMem (src + srcPF.channelByte srcPF.blue))
  mem.store dst (nativeBytes hostBig width.bytes
    (if pf.endianMismatch hostBig then swapBytes width d else d))

/-- The writes `*r`, `*g`, `*b` and `*x = 0`. -/
def channelWrites (pf : PixelFormatOf width) (red green blue : Byte) : List (ℕ × Byte) :=
  [(pf.channelByte pf.red, red), (pf.channelByte pf.green, green), (pf.channelByte pf.blue, blue),
    (pf.unusedByte, 0)]

/-- One pixel of `directBufferFromBufferTo888`, where `s` is a `UIN`. -/
def pixelTo888 (pf : PixelFormatOf width) (hostBig : Bool) (srcPF : PixelFormatOf width')
    (srcMem : Memory Byte) (dst src : ℤ) (mem : Memory Byte) : Memory Byte :=
  let s := nativePixel hostBig (srcMem.load src width'.bytes)
  let s := if srcPF.endianMismatch hostBig then swapBytes width' s else s
  mem.storeEach dst (pf.channelWrites (channelOf srcPF.red s) (channelOf srcPF.green s)
    (channelOf srcPF.blue s))

/-- One pixel of the generic code. -/
def genericPixel (pf : PixelFormatOf width) (srcPF : PixelFormatOf width') (srcMem : Memory Byte)
    (dst src : ℤ) (mem : Memory Byte) : Memory Byte :=
  let p := srcPF.pixelFromBuffer (loadPixel srcMem src width'.bytes)
  mem.store dst (pf.bufferFromPixel (pf.pixelFromPixel8 srcPF p)).val

/-- The generic code of `bufferFromBuffer`. -/
def genericFromBuffer (pf : PixelFormatOf width) (srcPF : PixelFormatOf width')
    (srcMem : Memory Byte) (w h : ℕ) (dstStride srcStride : ℤ) (c : Pointers Byte) : Memory Byte :=
  (rowLoop (pixelLoop (pf.genericPixel srcPF srcMem) width.bytes width'.bytes w)
    ((dstStride - w) * width.bytes) ((srcStride - w) * width'.bytes) h c).mem

/-- `bufferFromBuffer`, from `c.src` in one memory to `c.dst` in another. -/
def bufferFromBuffer (pf : PixelFormatOf width) (hostBig : Bool) (srcPF : PixelFormatOf width')
    (srcMem : Memory Byte) (w h : ℕ) (dstStride srcStride : ℤ) (c : Pointers Byte) : Memory Byte :=
  let n := width.bytes
  let n' := width'.bytes
  if pf.equalTo srcPF then
    (rowLoop (fun c => { c with mem := c.mem.store c.dst (srcMem.load c.src (w * n)) })
      (dstStride * n) (srcStride * n') h c).mem
  else if pf.is888 ∧ srcPF.is888 then
    (rowLoop (pixelLoop (pf.shufflePixel srcPF srcMem) 4 4 w)
      ((dstStride - w) * 4) ((srcStride - w) * 4) h c).mem
  else if c.dst % n = 0 ∧ srcPF.is888 then
    (rowLoop (pixelLoop (pf.pixelFrom888 hostBig srcPF srcMem) n 4 w)
      ((dstStride - w) * n) ((srcStride - w) * 4) h c).mem
  else if c.src % n' = 0 ∧ pf.is888 then
    (rowLoop (pixelLoop (pf.pixelTo888 hostBig srcPF srcMem) 4 n' w)
      ((dstStride - w) * 4) ((srcStride - w) * n') h c).mem
  else
    pf.genericFromBuffer srcPF srcMem w h dstStride srcStride c

/-- The generic code of `bufferFromRGB`. -/
def genericFromRGB (pf : PixelFormatOf width) (srcMem : Memory Byte) (w : ℕ) (stride : ℤ) (h : ℕ)
    (c : Pointers Byte) : Memory Byte :=
  (rowLoop (pixelLoop (fun dst src mem => mem.store dst (pf.bufferFromPixel
    (pf.pixelFromRGB8 (srcMem src) (srcMem (src + 1)) (srcMem (src + 2)))).val) width.bytes 3 w)
    ((stride - w) * width.bytes) 0 h c).mem

/-- `bufferFromRGB` for an area. -/
def bufferFromRGBArea (pf : PixelFormatOf width) (srcMem : Memory Byte) (w : ℕ) (stride : ℤ)
    (h : ℕ) (c : Pointers Byte) : Memory Byte :=
  if pf.is888 then
    (rowLoop (pixelLoop (fun dst src mem => mem.storeEach dst
      (pf.channelWrites (srcMem src) (srcMem (src + 1)) (srcMem (src + 2)))) 4 3 w)
      ((stride - w) * 4) 0 h c).mem
  else
    pf.genericFromRGB srcMem w stride h c

/-- `rgbFromBuffer` for an area. -/
def rgbFromBufferArea (pf : PixelFormatOf width) (srcMem : Memory Byte) (w : ℕ) (stride : ℤ)
    (h : ℕ) (c : Pointers Byte) : Memory Byte :=
  if pf.is888 then
    (rowLoop (pixelLoop (fun dst src mem => mem.store dst
      (pf.channels.map fun c => srcMem (src + pf.channelByte c))) 3 4 w)
      0 ((stride - w) * 4) h c).mem
  else
    (rowLoop (pixelLoop (fun dst src mem => mem.store dst
      (pf.rgb (loadPixel srcMem src width.bytes))) 3 width.bytes w)
      0 ((stride - w) * width.bytes) h c).mem

/-! ## Pixels -/

variable {pf : PixelFormatOf width} {srcPF : PixelFormatOf width'}

/-- On the bits of the channels a pixel is what its colours give. -/
theorem channels_of_rgb {v : RawPixel width.bytes} {red green blue : Byte}
    (h : pf.rgb v = [red, green, blue]) :
    pf.pixelFromBuffer v &&& pf.channelMask =
      pf.pixelFromRGB8 red green blue &&& pf.channelMask := by
  unfold rgb rgbFromPixel channels at h
  simp only [List.map_cons, List.map_nil, List.cons.injEq, and_true] at h
  obtain ⟨hred, hgreen, hblue⟩ := h
  refine BitVec.eq_of_getLsbD_eq fun j hj => ?_
  rw [BitVec.getLsbD_and, BitVec.getLsbD_and]
  cases hbit : pf.channelMask.getLsbD j with
  | false => rw [Bool.and_false, Bool.and_false]
  | true =>
    have hback := getLsbD_round_trip (p := pf.pixelFromBuffer v) hj (inChannel_of_mask hbit)
    rw [← hback, pixelFromPixel8, hred, hgreen, hblue]

theorem channels_bufferFromPixel (pf : PixelFormatOf width) (p : Pixel) :
    pf.pixelFromBuffer (pf.bufferFromPixel p) &&& pf.channelMask = p &&& pf.channelMask := by
  refine BitVec.eq_of_getLsbD_eq fun j hj => ?_
  rw [BitVec.getLsbD_and, BitVec.getLsbD_and]
  cases hbit : pf.channelMask.getLsbD j with
  | false => rw [Bool.and_false, Bool.and_false]
  | true =>
    obtain ⟨c, hc, -, hlt⟩ := inChannel_of_mask hbit
    obtain ⟨-, hfits⟩ := channel_bounds hc
    rw [getLsbD_pixelFromBuffer _ (by omega), getLsbD_bufferFromPixel p (by omega)]

theorem length_atPlaces {α : Type*} (pf : PixelFormatOf width) (a red green blue unused : α) :
    (pf.atPlaces a red green blue unused).length = 4 := by
  simp only [atPlaces, List.length_set, List.length_replicate]

/-- All four are found again, as the places are different. -/
theorem getElem?_atPlaces {α : Type*} (h : pf.is888) (a red green blue unused : α) :
    (pf.atPlaces a red green blue unused)[pf.channelByte pf.red]? = some red ∧
      (pf.atPlaces a red green blue unused)[pf.channelByte pf.green]? = some green ∧
      (pf.atPlaces a red green blue unused)[pf.channelByte pf.blue]? = some blue ∧
      (pf.atPlaces a red green blue unused)[pf.unusedByte]? = some unused := by
  obtain ⟨hlt, ⟨hrg, hrb, hgb⟩, hxr, hxg, hxb⟩ := places_distinct h
  simp only [places, List.forall_mem_cons] at hlt
  obtain ⟨hr, hg, hb, hx, -⟩ := hlt
  simp [atPlaces, hr, hg, hb, hx, Ne.symm hrg, Ne.symm hrb, Ne.symm hgb, hxr, hxg, hxb]

/-- Writing one byte for each of the places. -/
theorem storeEach_atPlaces (h : pf.is888) {writes : List (ℕ × Byte)} {red green blue unused : Byte}
    (hwrites : ∀ write, write ∈ writes ↔ write = (pf.channelByte pf.red, red) ∨
      write = (pf.channelByte pf.green, green) ∨ write = (pf.channelByte pf.blue, blue) ∨
      write = (pf.unusedByte, unused)) (dst : ℤ) (mem : Memory Byte) :
    mem.storeEach dst writes = mem.store dst (pf.atPlaces 0 red green blue unused) := by
  refine Memory.storeEach_eq mem dst ?_ ?_
  · obtain ⟨hred, hgreen, hblue, hunused⟩ := getElem?_atPlaces h 0 red green blue unused
    intro write hwrite
    rcases (hwrites write).mp hwrite with rfl | rfl | rfl | rfl
    · exact hred
    · exact hgreen
    · exact hblue
    · exact hunused
  · intro i hi
    rw [length_atPlaces] at hi
    have hplace := (places_perm h).mem_iff.mpr (List.mem_range.mpr hi)
    simp only [places, List.mem_cons, List.not_mem_nil, or_false] at hplace
    rcases hplace with rfl | rfl | rfl | rfl
    · exact ⟨_, (hwrites _).mpr (.inl rfl), rfl⟩
    · exact ⟨_, (hwrites _).mpr (.inr (.inl rfl)), rfl⟩
    · exact ⟨_, (hwrites _).mpr (.inr (.inr (.inl rfl))), rfl⟩
    · exact ⟨_, (hwrites _).mpr (.inr (.inr (.inr rfl))), rfl⟩

/-- **Byte shuffling** takes the bytes of the channels to their places. -/
theorem shufflePixel_eq (h : pf.is888) (hsrc : srcPF.is888) (srcMem : Memory Byte) (dst src : ℤ)
    (mem : Memory Byte) : pf.shufflePixel srcPF srcMem dst src mem =
      mem.store dst (pf.atPlaces 0 (srcMem (src + srcPF.channelByte srcPF.red))
        (srcMem (src + srcPF.channelByte srcPF.green))
        (srcMem (src + srcPF.channelByte srcPF.blue)) (srcMem (src + srcPF.unusedByte))) := by
  refine storeEach_atPlaces h (fun write => ?_) dst mem
  obtain ⟨hred, hgreen, hblue, hunused⟩ := getElem?_atPlaces hsrc 0 (pf.channelByte pf.red)
    (pf.channelByte pf.green) (pf.channelByte pf.blue) pf.unusedByte
  -- the bytes of the source in the order of its channels
  have hmap := (places_perm hsrc).map
    fun n : ℕ => ((pf.shufflePointers srcPF).getD n 0, srcMem (src + n))
  rw [← hmap.mem_iff]
  simp only [places, shufflePointers, List.getD_eq_getElem?_getD, List.map_cons, List.map_nil,
    hred, hgreen, hblue, hunused, Option.getD_some, List.mem_cons, List.not_mem_nil, or_false]

theorem storeEach_channelWrites (h : pf.is888) (red green blue : Byte) (dst : ℤ)
    (mem : Memory Byte) : mem.storeEach dst (pf.channelWrites red green blue) =
      mem.store dst (pf.atPlaces 0 red green blue 0) :=
  storeEach_atPlaces h (fun write => by simp [channelWrites]) dst mem

theorem rgb_atPlaces (h : pf.is888) {v : RawPixel width.bytes} {red green blue unused : Byte}
    (hv : v.val = pf.atPlaces 0 red green blue unused) : pf.rgb v = [red, green, blue] := by
  obtain ⟨hred, hgreen, hblue, -⟩ := getElem?_atPlaces h 0 red green blue unused
  rw [rgb_of_888 h, rgbFromBuffer, hv]
  simp only [channels, List.map_cons, List.map_nil, List.getD_eq_getElem?_getD, hred, hgreen,
    hblue, Option.getD_some]

/-- Three bytes of a pixel in memory are its colours. -/
theorem rgb_loadPixel (h : pf.is888) (mem : Memory Byte) (a : ℤ) :
    pf.rgb (loadPixel mem a width.bytes) = pf.channels.map fun c => mem (a + pf.channelByte c) := by
  obtain ⟨hlt, -⟩ := places_distinct h
  rw [rgb_of_888 h, rgbFromBuffer]
  refine List.map_congr_left fun c hc => loadPixel_getD mem a ?_
  obtain ⟨-, rfl, -, -⟩ := h
  refine hlt _ ?_
  simp only [channels, List.mem_cons, List.not_mem_nil, or_false] at hc
  rcases hc with rfl | rfl | rfl <;> simp [places]

/-- The plain conversion goes by the colours. -/
theorem pixelFromPixel8_of_rgb (pf : PixelFormatOf width) {u : RawPixel width'.bytes}
    {red green blue : Byte} (h : srcPF.rgb u = [red, green, blue]) :
    pf.pixelFromPixel8 srcPF (srcPF.pixelFromBuffer u) = pf.pixelFromRGB8 red green blue := by
  unfold rgb rgbFromPixel channels at h
  simp only [List.map_cons, List.map_nil, List.cons.injEq, and_true] at h
  obtain ⟨hred, hgreen, hblue⟩ := h
  rw [pixelFromPixel8, hred, hgreen, hblue]

/-! ## Areas -/

/-- Each pixel of the area has been converted, as the generic code does it, and nothing else has
been written. -/
structure ConvertsArea (pf : PixelFormatOf width) (mem mem' : Memory Byte) (dst : ℤ) (w h : ℕ)
    (stride : ℤ) (plain : ℕ → ℕ → Pixel) : Prop where
  outside : ∀ a, (∀ x < w, ∀ y < h, a < pixelAt dst width.bytes stride x y ∨
    pixelAt dst width.bytes stride x y + width.bytes ≤ a) → mem' a = mem a
  inside : ∀ x < w, ∀ y < h, Kept w h stride x y →
    pf.pixelFromBuffer (loadPixel mem' (pixelAt dst width.bytes stride x y) width.bytes) &&&
      pf.channelMask = plain x y &&& pf.channelMask

theorem ConvertsArea.of_fills {mem mem' : Memory Byte} {dst stride : ℤ} {w h k : ℕ}
    {val : ℕ → ℕ → List Byte} {plain : ℕ → ℕ → Pixel} (hk : k = width.bytes)
    (hfills : Fills mem mem' dst k w h stride val)
    (hval : ∀ x y (v : RawPixel width.bytes), v.val = val x y →
      pf.pixelFromBuffer v &&& pf.channelMask = plain x y &&& pf.channelMask) :
    pf.ConvertsArea mem mem' dst w h stride plain := by
  subst hk
  exact ⟨hfills.outside, fun x hx y hy hkept => hval x y _ (hfills.inside x hx y hy hkept)⟩

/-- The pixels of two areas agree on the bits of the channels. -/
def SameChannels (pf : PixelFormatOf width) (mem mem' : Memory Byte) (dst : ℤ) (w h : ℕ)
    (stride : ℤ) : Prop :=
  ∀ x < w, ∀ y < h, let a := pixelAt dst width.bytes stride x y
    pf.pixelFromBuffer (loadPixel mem a width.bytes) &&& pf.channelMask =
      pf.pixelFromBuffer (loadPixel mem' a width.bytes) &&& pf.channelMask

/-- Two conversions agree on every pixel, also where rows overlap. -/
theorem ConvertsArea.agree {mem mem' other : Memory Byte} {dst stride : ℤ} {w h : ℕ}
    {plain : ℕ → ℕ → Pixel} (h₁ : pf.ConvertsArea mem mem' dst w h stride plain)
    (h₂ : pf.ConvertsArea mem other dst w h stride plain) :
    pf.SameChannels mem' other dst w h stride := by
  intro x hx y hy
  obtain ⟨x', hx', y', hy', hplace, hkept⟩ := exists_kept dst width.bytes stride hx hy
  dsimp only
  rw [← hplace, h₁.inside x' hx' y' hy' hkept, h₂.inside x' hx' y' hy' hkept]

/-- What the plain conversion gives for a pixel of the source. -/
def plainPixel (pf : PixelFormatOf width) (srcPF : PixelFormatOf width') (srcMem : Memory Byte)
    (src : ℤ) : Pixel :=
  pf.pixelFromPixel8 srcPF (srcPF.pixelFromBuffer (loadPixel srcMem src width'.bytes))

theorem generic_converts (pf : PixelFormatOf width) (srcPF : PixelFormatOf width')
    (srcMem : Memory Byte) (w h : ℕ) (dstStride srcStride : ℤ) (c : Pointers Byte) :
    pf.ConvertsArea c.mem (pf.genericFromBuffer srcPF srcMem w h dstStride srcStride c) c.dst w
      h dstStride fun x y =>
        pf.plainPixel srcPF srcMem (pixelAt c.src width'.bytes srcStride x y) := by
  refine .of_fills rfl (fills_pixels
    (fun s => (pf.bufferFromPixel (pf.plainPixel srcPF srcMem s)).val)
    (fun s => (pf.bufferFromPixel _).property) (fun d s m => rfl) h dstStride srcStride c) ?_
  intro x y v hv
  rw [Subtype.ext hv]
  exact channels_bufferFromPixel pf _

/-- **Converting an area**, in whichever way it is done. -/
theorem bufferFromBuffer_converts (pf : PixelFormatOf width) (hostBig : Bool)
    (srcPF : PixelFormatOf width') (srcMem : Memory Byte) (w h : ℕ) (dstStride srcStride : ℤ)
    (c : Pointers Byte) : pf.ConvertsArea c.mem
      (pf.bufferFromBuffer hostBig srcPF srcMem w h dstStride srcStride c) c.dst w h dstStride
      fun x y => pf.plainPixel srcPF srcMem (pixelAt c.src width'.bytes srcStride x y) := by
  -- a pixel with the colours of another one
  have hcolours : ∀ {s : ℤ} {v : RawPixel width.bytes},
      pf.rgb v = srcPF.rgb (loadPixel srcMem s width'.bytes) →
      pf.pixelFromBuffer v &&& pf.channelMask =
        pf.plainPixel srcPF srcMem s &&& pf.channelMask := fun hrgb => channels_of_rgb hrgb
  unfold bufferFromBuffer
  dsimp only
  split_ifs with hequal h888 hfrom hto
  · obtain ⟨rfl, heq⟩ := hequal
    refine .of_fills rfl (fills_copied srcMem h dstStride srcStride c) fun x y v hv => ?_
    refine hcolours ?_
    rw [equal_rgb heq]
    exact congrArg srcPF.rgb (Subtype.ext hv)
  · obtain ⟨hdst, hsrc⟩ := h888
    obtain rfl : width = .bpp32 := hdst.2.1
    obtain rfl : width' = .bpp32 := hsrc.2.1
    refine .of_fills rfl (fills_pixels _ (fun s => length_atPlaces _ _ _ _ _ _)
      (shufflePixel_eq hdst hsrc srcMem) h dstStride srcStride c) fun x y v hv => hcolours ?_
    rw [rgb_atPlaces hdst hv, rgb_loadPixel hsrc]
    rfl
  · obtain ⟨-, hsrc⟩ := hfrom
    obtain rfl : width' = .bpp32 := hsrc.2.1
    refine .of_fills rfl (fills_pixels
      (fun s => (pf.bufferFromPixel (pf.plainPixel srcPF srcMem s)).val)
      (fun s => (pf.bufferFromPixel _).property) (fun d s m => ?_) h dstStride srcStride c) ?_
    · have hrgb := pixelFromPixel8_of_rgb pf (rgb_loadPixel hsrc srcMem s)
      rw [pixelFrom888, nativeBytes_eq, plainPixel, hrgb]
    · intro x y v hv
      rw [Subtype.ext hv]
      exact channels_bufferFromPixel pf _
  · obtain ⟨-, hdst⟩ := hto
    obtain rfl : width = .bpp32 := hdst.2.1
    refine .of_fills rfl (fills_pixels (fun s =>
        let p := srcPF.pixelFromBuffer (loadPixel srcMem s width'.bytes)
        pf.atPlaces 0 (channelOf srcPF.red p) (channelOf srcPF.green p) (channelOf srcPF.blue p) 0)
      (fun s => length_atPlaces _ _ _ _ _ _) (fun d s m => ?_) h dstStride srcStride c)
      fun x y v hv => hcolours (rgb_atPlaces hdst hv)
    have hnative := nativePixel_eq srcPF hostBig (loadPixel srcMem s width'.bytes)
    rw [pixelTo888, ← hnative]
    exact storeEach_channelWrites hdst _ _ _ d m
  · exact generic_converts pf srcPF srcMem w h dstStride srcStride c

theorem genericFromRGB_converts (pf : PixelFormatOf width) (srcMem : Memory Byte) (w h : ℕ)
    (stride : ℤ) (c : Pointers Byte) :
    pf.ConvertsArea c.mem (pf.genericFromRGB srcMem w stride h c) c.dst w h stride fun x y =>
      let src := pixelAt c.src 3 w x y
      pf.pixelFromRGB8 (srcMem src) (srcMem (src + 1)) (srcMem (src + 2)) := by
  have hfills := fills_pixels (k := width.bytes) (l := 3) (w := w) (fun s =>
      (pf.bufferFromPixel (pf.pixelFromRGB8 (srcMem s) (srcMem (s + 1)) (srcMem (s + 2)))).val)
    (fun s => (pf.bufferFromPixel _).property) (fun d s m => rfl) h stride w c
  rw [Int.sub_self, Int.zero_mul] at hfills
  refine .of_fills rfl hfills ?_
  intro x y v hv
  rw [Subtype.ext hv]
  exact channels_bufferFromPixel pf _

theorem bufferFromRGB_converts (pf : PixelFormatOf width) (srcMem : Memory Byte) (w h : ℕ)
    (stride : ℤ) (c : Pointers Byte) :
    pf.ConvertsArea c.mem (pf.bufferFromRGBArea srcMem w stride h c) c.dst w h stride fun x y =>
      let src := pixelAt c.src 3 w x y
      pf.pixelFromRGB8 (srcMem src) (srcMem (src + 1)) (srcMem (src + 2)) := by
  unfold bufferFromRGBArea
  split_ifs with h888
  · obtain rfl : width = .bpp32 := h888.2.1
    have hfills := fills_pixels (k := 4) (l := 3) (w := w)
      (fun s => pf.atPlaces 0 (srcMem s) (srcMem (s + 1)) (srcMem (s + 2)) 0)
      (fun s => length_atPlaces _ _ _ _ _ _)
      (fun d s m => storeEach_channelWrites h888 _ _ _ d m) h stride w c
    rw [Int.sub_self, Int.zero_mul] at hfills
    exact .of_fills rfl hfills fun x y v hv => channels_of_rgb (rgb_atPlaces h888 hv)
  · exact genericFromRGB_converts pf srcMem w h stride c

/-- `rgbFromBuffer` writes the colours themselves. -/
theorem rgbFromBuffer_fills (pf : PixelFormatOf width) (srcMem : Memory Byte) (w h : ℕ)
    (stride : ℤ) (c : Pointers Byte) :
    Fills c.mem (pf.rgbFromBufferArea srcMem w stride h c) c.dst 3 w h w fun x y =>
      pf.rgb (loadPixel srcMem (pixelAt c.src width.bytes stride x y) width.bytes) := by
  have hgeneric := fills_pixels (k := 3) (l := width.bytes) (w := w)
    (fun s => pf.rgb (loadPixel srcMem s width.bytes)) (fun s => rfl) (fun d s m => rfl) h w
    stride c
  rw [Int.sub_self, Int.zero_mul] at hgeneric
  unfold rgbFromBufferArea
  split_ifs with h888
  · simp only [rgb_loadPixel h888] at hgeneric ⊢
    obtain rfl : width = .bpp32 := h888.2.1
    exact hgeneric
  · exact hgeneric

/-- **Fast conversion is plain conversion**, on every bit of a channel, and it stays within the
area. -/
theorem fast_conversion_plain (pf : PixelFormatOf width) (srcPF : PixelFormatOf width')
    (hostBig : Bool) (srcMem : Memory Byte) (w h : ℕ) (dstStride srcStride : ℤ)
    (c : Pointers Byte) :
    let fast := pf.bufferFromBuffer hostBig srcPF srcMem w h dstStride srcStride c
    let fastRGB := pf.bufferFromRGBArea srcMem w dstStride h c
    pf.ConvertsArea c.mem fast c.dst w h dstStride
      (fun x y => pf.plainPixel srcPF srcMem (pixelAt c.src width'.bytes srcStride x y)) ∧
    pf.SameChannels fast (pf.genericFromBuffer srcPF srcMem w h dstStride srcStride c) c.dst w h
      dstStride ∧
    pf.ConvertsArea c.mem fastRGB c.dst w h dstStride (fun x y =>
      let src := pixelAt c.src 3 w x y
      pf.pixelFromRGB8 (srcMem src) (srcMem (src + 1)) (srcMem (src + 2))) ∧
    pf.SameChannels fastRGB (pf.genericFromRGB srcMem w dstStride h c) c.dst w h dstStride ∧
    Fills c.mem (srcPF.rgbFromBufferArea srcMem w srcStride h c) c.dst 3 w h w (fun x y =>
      srcPF.rgb (loadPixel srcMem (pixelAt c.src width'.bytes srcStride x y) width'.bytes)) := by
  have hbuffer := bufferFromBuffer_converts pf hostBig srcPF srcMem w h dstStride srcStride c
  have hrgb := bufferFromRGB_converts pf srcMem w h dstStride c
  exact ⟨hbuffer, hbuffer.agree (generic_converts pf srcPF srcMem w h dstStride srcStride c), hrgb,
    hrgb.agree (genericFromRGB_converts pf srcMem w h dstStride c),
    rgbFromBuffer_fills srcPF srcMem w h srcStride c⟩

end PixelFormatOf

end KasmVNC.Rfb
