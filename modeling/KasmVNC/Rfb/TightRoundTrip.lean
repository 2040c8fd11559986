import KasmVNC.Rfb.Qoi
import KasmVNC.Rfb.RectCount
import KasmVNC.Rfb.Tight

/-!
# Tight round trip

The two ends agree on the size of the data, on what is compressed and by which stream,
and on where the rectangle ends, as long as the compressed data is shorter than 2^22
bytes: of a longer length only the lowest 22 bits are sent. Tiles are never that long, but
the legacy video mode sends the screen as one rectangle.
-/

namespace KasmVNC.Rfb

open KasmVNC.Lib Reader PixelFormatOf

variable {κ : Type} {k : ℕ} {width : PixelWidth}

/-! ## Compact lengths -/

section Compact

theorem getLsbD_mask {w n i : ℕ} :
    (BitVec.ofNat w (2 ^ n - 1)).getLsbD i = (decide (i < w) && decide (i < n)) := by
  rw [BitVec.getLsbD_ofNat, Nat.testBit_two_pow_sub_one]

/-- A group of up to eight bits, sent in a byte. -/
theorem group_byte (v : BitVec 32) {n : ℕ} (hn : n ≤ 8) :
    ((v &&& BitVec.ofNat 32 (2 ^ n - 1)).setWidth 8).setWidth 32 =
      v &&& BitVec.ofNat 32 (2 ^ n - 1) := by
  refine BitVec.eq_of_getLsbD_eq fun i hi => ?_
  rw [BitVec.getLsbD_setWidth, BitVec.getLsbD_setWidth, BitVec.getLsbD_and, getLsbD_mask]
  by_cases hin : i < n
  · have h8 : i < 8 := by omega
    simp [hi, hin, h8]
  · simp [hin]

/-- Seven bits and the flag that another byte follows. -/
theorem flag_bits (b : Byte) :
    ((b &&& 0x7f) &&& 0x80 = 0 ∧ (b &&& 0x7f) &&& 0x7f = b &&& 0x7f) ∧
      ((b &&& 0x7f) ||| 0x80) &&& 0x80 ≠ 0 ∧ ((b &&& 0x7f) ||| 0x80) &&& 0x7f = b &&& 0x7f := by
  have hzero : (b &&& 0x7f) &&& 0x80 = 0 := by
    rw [BitVec.and_assoc]
    exact BitVec.and_zero
  have hkeep : (b &&& 0x7f) &&& 0x7f = b &&& 0x7f := by
    rw [BitVec.and_assoc, BitVec.and_self]
  refine ⟨⟨hzero, hkeep⟩, ?_, ?_⟩
  · rw [BitVec.and_or_distrib_right, hzero]
    decide
  · rw [BitVec.and_or_distrib_right, hkeep]
    exact BitVec.or_zero

/-- The byte for the seven lowest bits, without the flag and with it. -/
theorem group_flags (v : BitVec 32) :
    (((v &&& 0x7f).setWidth 8) &&& 0x80 = 0 ∧
      (((v &&& 0x7f).setWidth 8) &&& 0x7f).setWidth 32 = v &&& 0x7f) ∧
    (((v &&& 0x7f).setWidth 8) ||| 0x80) &&& 0x80 ≠ 0 ∧
      ((((v &&& 0x7f).setWidth 8) ||| 0x80) &&& 0x7f).setWidth 32 = v &&& 0x7f := by
  have hlow : (v &&& 0x7f).setWidth 8 = v.setWidth 8 &&& 0x7f := by
    rw [BitVec.setWidth_and]
    rfl
  have hbyte : (v.setWidth 8 &&& 0x7f).setWidth 32 = v &&& 0x7f := by
    rw [← hlow]
    exact group_byte v (n := 7) (by decide)
  obtain ⟨⟨hzero, hkeep⟩, hflag, hkeep'⟩ := flag_bits (v.setWidth 8)
  rw [hlow, hkeep, hkeep', hbyte]
  exact ⟨⟨hzero, rfl⟩, hflag, rfl⟩

/-- Only the lowest bits of a small number are set. -/
theorem getLsbD_of_le {n : ℕ} {v : BitVec 32} (h : v ≤ BitVec.ofNat 32 (2 ^ n - 1)) {i : ℕ}
    (hi : n ≤ i) : v.getLsbD i = false := by
  have hle : v.toNat ≤ (2 ^ n - 1) % 2 ^ 32 := by simpa [BitVec.le_def] using h
  have hpow : 2 ^ n ≤ 2 ^ i := Nat.pow_le_pow_right Nat.two_pos hi
  have hpos : 0 < 2 ^ n := Nat.two_pow_pos n
  have hmod := Nat.mod_le (2 ^ n - 1) (2 ^ 32)
  exact Nat.testBit_lt_two_pow (by omega)

/-- A group of bits, put back in its place. -/
theorem getLsbD_group (v : BitVec 32) (s n : ℕ) {i : ℕ} (hi : i < 32) :
    (((v >>> s) &&& BitVec.ofNat 32 (2 ^ n - 1)) <<< s).getLsbD i =
      (decide (s ≤ i ∧ i < s + n) && v.getLsbD i) := by
  rw [BitVec.getLsbD_shiftLeft, BitVec.getLsbD_and, BitVec.getLsbD_ushiftRight, getLsbD_mask]
  by_cases hs : s ≤ i
  · have hsum : s + (i - s) = i := by omega
    have hlt : i - s < 32 := by omega
    have hiff : (i - s < n) = (i < s + n) := propext (by omega)
    rw [hsum]
    cases hv : v.getLsbD i <;> simp [hi, hs, hlt, hiff]
  · have hlt : i < s := by omega
    simp [hs, hlt]

/-- The 22 lowest bits, in groups. -/
theorem groups_eq (v : BitVec 32) :
    (v &&& (0x7f : BitVec 32)) ||| (((v >>> 7) &&& 0x7f) <<< 7) ||| (((v >>> 14) &&& 0xff) <<< 14) =
      v &&& 0x3fffff := by
  refine BitVec.eq_of_getLsbD_eq fun i hi => ?_
  have h0 := getLsbD_group v 0 7 hi
  have h7 := getLsbD_group v 7 7 hi
  have h14 := getLsbD_group v 14 8 hi
  have h22 := getLsbD_group v 0 22 hi
  rw [BitVec.shiftLeft_zero, BitVec.ushiftRight_zero] at h0 h22
  rw [BitVec.getLsbD_or, BitVec.getLsbD_or]
  refine (congrArg₂ or (congrArg₂ or h0 h7) h14).trans (Eq.trans ?_ h22.symm)
  cases v.getLsbD i
  · simp
  · simp only [Bool.and_true, ← Bool.decide_or, decide_eq_decide]
    omega

/-- A group above a small number is empty. -/
theorem group_eq_zero {v : BitVec 32} {s n : ℕ} (h : v ≤ BitVec.ofNat 32 (2 ^ s - 1)) :
    ((v >>> s) &&& BitVec.ofNat 32 (2 ^ n - 1)) <<< s = 0#32 := by
  refine BitVec.eq_of_getLsbD_eq fun i hi => ?_
  rw [getLsbD_group v s n hi]
  by_cases hs : s ≤ i
  · simp [getLsbD_of_le h hs]
  · simp [hs]

theorem reads_compact (v : BitVec 32) :
    Reads (readCompact : Reader κ _) (writeCompact v) (v &&& 0x3fffff) := by
  have hgroups := groups_eq v
  obtain ⟨⟨hlast, hlow⟩, hmore, hlow'⟩ := group_flags v
  obtain ⟨⟨hlast7, hlow7⟩, hmore7, hlow7'⟩ := group_flags (v >>> 7)
  unfold readCompact writeCompact
  dsimp only
  by_cases hone : v ≤ 0x7f
  · rw [if_pos hone]
    refine Consumes.last (reads_u8 _) ?_
    have h7 : ((v >>> 7) &&& 0x7f) <<< 7 = 0#32 := group_eq_zero (s := 7) (n := 7) hone
    have h14 : ((v >>> 14) &&& 0xff) <<< 14 = 0#32 := group_eq_zero (s := 14) (n := 8)
      (BitVec.le_trans hone (by decide))
    rw [h7, h14, BitVec.or_zero, BitVec.or_zero] at hgroups
    rw [if_neg (not_not.mpr hlast), hlow, hgroups]
  · rw [if_neg hone]
    by_cases htwo : v ≤ 0x3fff
    · rw [if_pos htwo]
      refine Consumes.u8 ?_
      rw [if_pos hmore, hlow']
      refine Consumes.last (reads_u8 _) ?_
      have h14 : ((v >>> 14) &&& 0xff) <<< 14 = 0#32 := group_eq_zero (s := 14) (n := 8) htwo
      rw [h14, BitVec.or_zero] at hgroups
      rw [if_neg (not_not.mpr hlast7), hlow7, hgroups]
    · rw [if_neg htwo]
      refine Consumes.u8 ?_
      rw [if_pos hmore, hlow']
      refine Consumes.u8 ?_
      rw [if_pos hmore7, hlow7']
      refine Consumes.last (reads_u8 _) ?_
      have hbyte : (((v >>> 14) &&& 0xff).setWidth 8).setWidth 32 = (v >>> 14) &&& 0xff :=
        group_byte (v >>> 14) (n := 8) (by decide)
      rw [hbyte, hgroups]

end Compact

/-! ## Two colours -/

section Mono

variable {bg : RawPixel k}

/-- The bit in the mask for a pixel. -/
theorem getLsbD_bit : ∀ n : ℕ, (0x80 : Byte).getLsbD n = decide (n = 7)
  | 0 | 1 | 2 | 3 | 4 | 5 | 6 | 7 => by decide
  | n + 8 => by simp

theorem getD_drop {α : Type*} {l : List α} {n i : ℕ} {d : α} :
    (l.drop n).getD i d = l.getD (n + i) d := by
  simp only [List.getD_eq_getElem?_getD, List.getElem?_drop]

theorem getLsbD_setMask : ∀ {cs : List (RawPixel k)} {value : Byte} {b t : ℕ}, t < 8 →
    (setMask bg value ((0x80 : Byte) >>> b) cs).getLsbD t =
      (value.getLsbD t || (decide (t + b ≤ 7) && decide (cs.getD (7 - b - t) bg ≠ bg)))
  | [], value, b, t, _ => by simp [setMask]
  | c :: cs, value, b, t, ht => by
    have hmask : (0x80 : Byte) >>> b >>> 1 = (0x80 : Byte) >>> (b + 1) := by
      rw [BitVec.shiftRight_add]
    have hbit : ((0x80 : Byte) >>> b).getLsbD t = decide (b + t = 7) := by
      rw [BitVec.getLsbD_ushiftRight, getLsbD_bit]
    have hvalue : (if c ≠ bg then value ||| (0x80 : Byte) >>> b else value).getLsbD t =
        (value.getLsbD t || (decide (b + t = 7) && decide (c ≠ bg))) := by
      by_cases hc : c ≠ bg
      · rw [if_pos hc, BitVec.getLsbD_or, hbit]
        simp [hc]
      · rw [if_neg hc]
        simp [hc]
    rw [setMask, hmask, getLsbD_setMask ht, hvalue]
    rcases Nat.lt_trichotomy (t + b) 7 with hlt | heq | hgt
    · have hindex : 7 - b - t = 7 - (b + 1) - t + 1 := by omega
      have hne : ¬b + t = 7 := by omega
      have hle : t + (b + 1) ≤ 7 := by omega
      have hle' : t + b ≤ 7 := by omega
      rw [hindex, List.getD_cons_succ]
      simp [hne, hle, hle']
    · have hindex : 7 - b - t = 0 := by omega
      have heq' : b + t = 7 := by omega
      have hnle : ¬t + (b + 1) ≤ 7 := by omega
      rw [hindex, List.getD_cons_zero]
      simp [heq, heq', hnle]
    · have hne : ¬b + t = 7 := by omega
      have hnle : ¬t + (b + 1) ≤ 7 := by omega
      have hnle' : ¬t + b ≤ 7 := by omega
      simp [hne, hnle, hnle']

/-- A byte of eight pixels, wherever the first one is that is not in the background. -/
theorem getLsbD_monoByte {cs : List (RawPixel k)} (hlen : cs.length = 8) {t : ℕ} (ht : t < 8) :
    (monoByte bg cs).getLsbD t = decide (cs.getD (7 - t) bg ≠ bg) := by
  have hsplit := List.takeWhile_append_dropWhile (p := fun c => decide (c = bg)) (l := cs)
  have hbefore : ∀ i < (cs.takeWhile (· = bg)).length, cs.getD i bg = bg := by
    intro i hi
    have hget : cs[i]? = some (cs.takeWhile (· = bg))[i] := by
      conv_lhs => rw [← hsplit]
      rw [List.getElem?_append_left hi, List.getElem?_eq_getElem hi]
    rw [List.getD_eq_getElem?_getD, hget]
    exact of_decide_eq_true (List.mem_takeWhile_imp (p := fun c => decide (c = bg))
      (List.getElem_mem hi))
  have hle : (cs.takeWhile (· = bg)).length ≤ 8 := by
    have hinit := (List.takeWhile_prefix (l := cs) fun c => decide (c = bg)).length_le
    omega
  unfold monoByte
  dsimp only
  by_cases hall : (cs.takeWhile (· = bg)).length = 8
  · rw [if_pos hall, hbefore (7 - t) (by omega)]
    simp
  · rw [if_neg hall]
    -- the first pixel that is not in the background
    have hfirst : cs.getD (cs.takeWhile (· = bg)).length bg ≠ bg := by
      have hhead := List.head?_dropWhile_not (fun c : RawPixel k => decide (c = bg)) cs
      cases hdrop : cs.dropWhile (· = bg) with
      | nil =>
        rw [hdrop, List.append_nil] at hsplit
        exact absurd ((congrArg List.length hsplit).trans hlen) hall
      | cons d ds =>
        rw [hdrop] at hsplit hhead
        have hget : ∀ l : List (RawPixel k), l ++ d :: ds = cs → cs.getD l.length bg = d := by
          rintro l rfl
          simp
        rw [hget _ hsplit]
        simpa using hhead
    generalize (cs.takeWhile (· = bg)).length = n at hbefore hall hle hfirst
    rw [← BitVec.shiftRight_add, getLsbD_setMask ht, BitVec.getLsbD_ushiftRight, getLsbD_bit,
      getD_drop]
    rcases Nat.lt_trichotomy (7 - t) n with hlt | heq | hgt
    · have hne : ¬n + t = 7 := by omega
      have hnle : ¬t + (n + 1) ≤ 7 := by omega
      rw [hbefore _ hlt]
      simp [hne, hnle]
    · have hbit : n + t = 7 := by omega
      rw [heq, decide_eq_true hfirst]
      simp [hbit]
    · have hne : ¬n + t = 7 := by omega
      have hle : t + (n + 1) ≤ 7 := by omega
      have hindex : n + 1 + (7 - (n + 1) - t) = 7 - t := by omega
      rw [hindex]
      simp [hne, hle]

/-- Unpacking the bits of a byte. -/
theorem monoPixels_eq {palette : List (RawPixel k)} {n : ℕ} {bits : Byte} (row : ℕ → RawPixel k)
    (hbits : ∀ i < n, bits.getLsbD (7 - i) = decide (row i ≠ bg)) :
    monoPixels palette n bits =
      (List.range n).map fun i => palette.getD (if row i ≠ bg then 1 else 0) default := by
  have hone : ∀ s, ((bits >>> s) &&& 1).toNat = if bits.getLsbD s then 1 else 0 := by
    intro s
    have hbit := BitVec.and_one_eq_setWidth_ofBool_getLsbD (x := bits >>> s)
    rw [BitVec.getLsbD_ushiftRight, Nat.add_zero] at hbit
    rw [show (1 : Byte) = 1#8 from rfl, hbit]
    cases bits.getLsbD s <;> rfl
  refine List.map_congr_left fun i hi => ?_
  rw [hone, hbits i (List.mem_range.mp hi)]
  simp

/-- Numbers below a product, in groups. -/
theorem range_groups {α : Type*} (f : ℕ → α) (m : ℕ) :
    ((List.range m).flatMap fun i => (List.range 8).map fun b => f (8 * i + b)) =
      (List.range (8 * m)).map f := by
  simp only [Nat.mul_comm 8]
  exact flatMap_range f 8 m

theorem getD_map_range {α : Type*} (f : ℕ → α) {n i : ℕ} (hi : i < n) (d : α) :
    ((List.range n).map f).getD i d = f i := by
  simp [hi]

/-- One row of two colours. -/
theorem reads_filterMonoRow (palette : List (RawPixel k)) (bg : RawPixel k) (row : ℕ → RawPixel k)
    (w : ℕ) : Reads (filterMonoRow palette w : Reader κ _) (monoRow bg row w)
      ((List.range w).map fun x => palette.getD (if row x ≠ bg then 1 else 0) default) := by
  have hgroup : ∀ i, monoPixels palette 8
      (monoByte bg ((List.range 8).map fun b => row (8 * i + b))) =
      (List.range 8).map fun b => palette.getD (if row (8 * i + b) ≠ bg then 1 else 0) default := by
    intro i
    refine monoPixels_eq (fun b => row (8 * i + b)) fun b hb => ?_
    have hindex : 7 - (7 - b) = b := by omega
    rw [getLsbD_monoByte (by simp) (by omega), hindex, getD_map_range _ hb]
  have hfull : Reads (readMany readU8 (List.range (w / 8)).length : Reader κ _) _ _ :=
    reads_manyOf fun i _ => reads_u8 (monoByte bg ((List.range 8).map fun b => row (8 * i + b)))
  rw [List.length_range, ← List.map_eq_flatMap] at hfull
  have hpixels : ((List.range (w / 8)).map fun i =>
      monoByte bg ((List.range 8).map fun b => row (8 * i + b))).flatMap (monoPixels palette 8) =
      (List.range (8 * (w / 8))).map fun x =>
        palette.getD (if row x ≠ bg then 1 else 0) default := by
    rw [List.flatMap_map, ← range_groups]
    exact congrArg (fun g => (List.range (w / 8)).flatMap g) (funext hgroup)
  unfold filterMonoRow monoRow
  dsimp only
  by_cases hrest : w % 8 ≠ 0
  · rw [if_pos hrest]
    refine Consumes.read hfull ?_
    rw [if_pos hrest]
    refine Consumes.last (reads_u8 _) ?_
    have hbits : monoPixels palette (w % 8)
        (setMask bg 0 0x80 ((List.range (w % 8)).map fun b => row (8 * (w / 8) + b))) =
        (List.range (w % 8)).map fun b =>
          palette.getD (if row (8 * (w / 8) + b) ≠ bg then 1 else 0) default := by
      refine monoPixels_eq (fun b => row (8 * (w / 8) + b)) fun b hb => ?_
      have hmod : w % 8 < 8 := Nat.mod_lt _ (by decide)
      have hmask : (setMask bg 0 ((0x80 : Byte) >>> 0)
          ((List.range (w % 8)).map fun b => row (8 * (w / 8) + b))).getLsbD (7 - b) = _ :=
        getLsbD_setMask (by omega)
      have hindex : 7 - 0 - (7 - b) = b := by omega
      rw [BitVec.ushiftRight_zero, hindex, getD_map_range _ hb] at hmask
      rw [hmask]
      simp
    have hsum : w = 8 * (w / 8) + w % 8 := (Nat.div_add_mod w 8).symm
    rw [hpixels, hbits]
    conv_rhs => rw [hsum, List.range_add, List.map_append, List.map_map]
    rfl
  · rw [if_neg hrest]
    refine Consumes.last hfull ?_
    have hsum : 8 * (w / 8) = w := by omega
    rw [if_neg hrest, hpixels, hsum]

/-- A row is padded to whole bytes. -/
theorem length_monoRow (bg : RawPixel k) (row : ℕ → RawPixel k) (w : ℕ) :
    (monoRow bg row w).length = (w + 7) / 8 := by
  unfold monoRow
  dsimp only
  split
  · rw [List.length_append, List.length_map, List.length_range, List.length_singleton]
    omega
  · rw [List.length_map, List.length_range]
    omega

end Mono

/-! ## Compressed data -/

/-- The streams of the two ends are in step, unless each of them is reset before it is
used again. -/
def TightStreams.Together {Z : Zlib} (s : TightStreams Z) (zis : Fin 4 → Z.Inflate) : Prop :=
  s.resets = false → ∀ i, Z.InStep (s.zlibStreams i) (zis i)

/-- Data that is not compressed, or has a compressed length of up to 22 bits. -/
def TightStreams.Fits {Z : Zlib} (s : TightStreams Z) (streamId : Fin 4) (data : List Byte) :
    Prop :=
  data.length < 12 ∨ (s.compress streamId data).1.length < 2 ^ 22

section Data

variable {Z : Zlib} {s : TightStreams Z} {streamId : Fin 4} {data : List Byte} {zis : Z.Inflate}

theorem toNat_and_mask (v : BitVec 32) : (v &&& 0x3fffff).toNat = v.toNat % 2 ^ 22 := by
  have hmask : (0x3fffff : BitVec 32).toNat = 2 ^ 22 - 1 := rfl
  rw [BitVec.toNat_and, hmask, Nat.and_two_pow_sub_one_eq_mod]

/-- Reading a length and as many bytes. -/
theorem consumes_copyCompact (n : ℕ) :
    Consumes (tightCopyCompact : Reader κ _) (writeCompact (BitVec.ofNat 32 n)) (do
      let bytes ← readBytes (n % 2 ^ 22)
      pure (be32 (BitVec.ofNat 32 n &&& 0x3fffff) ++ bytes)) := by
  refine Consumes.last (reads_compact _) ?_
  have hdvd : 2 ^ 22 ∣ 2 ^ 32 := by decide
  rw [toNat_and_mask, BitVec.toNat_ofNat, Nat.mod_mod_of_dvd n hdvd]

theorem reads_copyData (hfits : s.Fits streamId data)
    (hstep : Z.InStep
      (if s.resets then Z.resetDeflate (s.zlibStreams streamId) else s.zlibStreams streamId) zis) :
    ∃ copy zis', Reads (tightCopyData data.length : Reader κ _)
        (tightWriteData s streamId data.length data).1 copy ∧
      Reads (tightReadData Z zis data.length : Reader κ _) copy (data, zis') ∧
      ((tightWriteData s streamId data.length data).2 = s ∧ zis' = zis ∨
        ∃ zs, (tightWriteData s streamId data.length data).2 =
          { s with zlibStreams := Function.update s.zlibStreams streamId zs } ∧
          Z.InStep zs zis') := by
  unfold tightCopyData tightReadData tightWriteData TIGHT_MIN_TO_COMPRESS
  by_cases hshort : data.length < 12
  · rw [if_pos hshort, if_pos hshort, if_pos hshort]
    exact ⟨data, zis, reads_bytes data, Consumes.last (reads_bytes data) rfl, Or.inl ⟨rfl, rfl⟩⟩
  · rw [if_neg hshort, if_neg hshort, if_neg hshort]
    obtain ⟨zis', hdecompress, hstep'⟩ := Z.lossless hstep data
    have hlen := hfits.resolve_left hshort
    unfold TightStreams.compress at hlen ⊢
    generalize Z.compress _ data = mem at hlen hdecompress hstep' ⊢
    obtain ⟨mem, zs⟩ := mem
    dsimp only at hlen hdecompress hstep' ⊢
    have hmask : BitVec.ofNat 32 mem.length &&& 0x3fffff = BitVec.ofNat 32 mem.length := by
      refine BitVec.eq_of_toNat_eq ?_
      rw [toNat_and_mask, BitVec.toNat_ofNat]
      omega
    refine ⟨be32 (BitVec.ofNat 32 mem.length) ++ mem, zis', ?_, ?_, Or.inr ⟨zs, rfl, hstep'⟩⟩
    · refine (consumes_copyCompact mem.length).trans ?_
      rw [Nat.mod_eq_of_lt hlen, hmask]
      exact Consumes.last (reads_bytes mem) rfl
    · refine Consumes.read (reads_u32 _) ?_
      rw [BitVec.toNat_ofNat, Nat.mod_eq_of_lt (by omega)]
      refine Consumes.last (reads_bytes mem) ?_
      rw [hdecompress]
      dsimp only
      rw [if_pos le_rfl, List.take_length]

/-- A longer length is cut off, and some of the compressed data is not read. -/
theorem fits_of_copyData {copy : List Byte} {calls calls' : List κ}
    (h : tightCopyData data.length ⟨(tightWriteData s streamId data.length data).1, calls⟩ =
      .ok (copy, ⟨[], calls'⟩)) : s.Fits streamId data := by
  by_cases hshort : data.length < 12
  · exact Or.inl hshort
  · right
    unfold tightCopyData tightWriteData TIGHT_MIN_TO_COMPRESS at h
    rw [if_neg hshort, if_neg hshort] at h
    generalize (s.compress streamId data) = mem at h ⊢
    obtain ⟨mem, zs⟩ := mem
    dsimp only at h ⊢
    rw [consumes_copyCompact mem.length mem calls] at h
    change Except.bind (readBytes (mem.length % 2 ^ 22) ⟨mem, calls⟩) _ = _ at h
    unfold readBytes at h
    dsimp only at h
    rw [if_pos (Nat.mod_le _ _)] at h
    have hdrop : mem.drop (mem.length % 2 ^ 22) = [] :=
      congrArg (fun res => res.2.input) (Except.ok.inj h)
    have hle := List.drop_eq_nil_iff.mp hdrop
    have hlt := Nat.mod_lt mem.length (y := 2 ^ 22) (by decide)
    omega

end Data

/-! ## Rectangles with data -/

/-- Whether there is a filter. -/
def filterOf (explicit : Bool) : Byte := if explicit then tightExplicitFilter else 0

/-- What the client takes from the first byte. -/
theorem control_bits : ∀ (resets : Bool) (streamId : Fin 4) (explicit : Bool),
    let byte := tightControl resets streamId (filterOf explicit)
    let comp_ctl := byte >>> 4
    (comp_ctl ≠ tightFill ∧ comp_ctl ≠ tightJpeg ∧ ¬comp_ctl > tightMaxSubencoding) ∧
      (comp_ctl &&& tightExplicitFilter ≠ 0 ↔ explicit = true) ∧
      Fin.ofNat 4 (comp_ctl &&& 0x03).toNat = streamId ∧
      ∀ i : Fin 4, byte.getLsbD i = (resets && decide (i = streamId)) := by
  decide

section Basic

variable {client : PixelFormatOf width} {Z : Zlib} {resets explicit : Bool} {streamId : Fin 4}
  {header : List Byte} {w h : ℕ}

/-- Copying up to the data. -/
theorem consumes_readRect (hw : w ≤ TIGHT_MAX_WIDTH) {byte : Byte}
    (hbyte : byte = tightControl resets streamId (filterOf explicit)) {palSize : ℕ}
    (hcopy : Reads (tightCopyFilter client (byte >>> 4) : Reader κ _) header (header, palSize)) :
    Consumes (tightReadRect client w h : Reader κ _) (byte :: header) (do
      let data ← tightCopyData (tightDataSize client palSize w h)
      pure (byte :: (header ++ data))) := by
  obtain ⟨⟨hfill, hjpeg, hmax⟩, -⟩ := control_bits resets streamId explicit
  rw [← hbyte] at hfill hjpeg hmax
  refine Consumes.u8 ?_
  rw [if_neg hfill, if_neg hjpeg, if_neg hmax, if_neg (by omega)]
  exact Consumes.last hcopy rfl

/-- The streams of the client after a first byte. -/
def afterControl (zis : Fin 4 → Z.Inflate) (resets : Bool) (streamId : Fin 4) : Fin 4 → Z.Inflate :=
  fun i => if (resets && decide (i = streamId)) = true then Z.resetInflate (zis i) else zis i

/-- Decoding up to the data. -/
theorem consumes_decodeRect {filters : OtherFilters width.bytes} {zis : Fin 4 → Z.Inflate}
    {r : Rect}
    {frame : Point → RawPixel width.bytes} {palette : List (RawPixel width.bytes)} {byte : Byte}
    (hbyte : byte = tightControl resets streamId (filterOf explicit))
    (hread : Reads (tightReadFilter client (byte >>> 4) : Reader κ _) header (palette, false)) :
    Consumes (tightDecodeRect client filters Z zis r frame : Reader κ _) (byte :: header) (do
      let data ← tightReadData Z (afterControl zis resets streamId streamId)
        (tightDataSize client palette.length r.cols r.rows)
      match tightDecodePixels client filters palette false r.cols r.rows data.1 with
      | .error msg => fail msg
      | .ok image => pure (imageRect r image frame,
          Function.update (afterControl zis resets streamId) streamId data.2)) := by
  obtain ⟨⟨hfill, hjpeg, hmax⟩, -, hid, hbits⟩ := control_bits resets streamId explicit
  rw [← hbyte] at hfill hjpeg hmax hid hbits
  have hzis : (fun i : Fin 4 => if byte.getLsbD i then Z.resetInflate (zis i) else zis i) =
      afterControl zis resets streamId := by
    funext i
    rw [hbits]
    rfl
  refine Consumes.u8 ?_
  rw [if_neg hfill, if_neg hjpeg, if_neg hmax, hzis, hid]
  exact Consumes.last hread rfl

/-- The rectangle is read and decoded if its data is, and the streams stay together. -/
theorem reads_basic {s : TightStreams Z} {zis : Fin 4 → Z.Inflate} (hs : s.Together zis)
    {byte : Byte} (hbyte : byte = tightControl s.resets streamId (filterOf explicit))
    {palette : List (RawPixel width.bytes)}
    (hcopy : Reads (tightCopyFilter client (byte >>> 4) : Reader κ _) header
      (header, palette.length))
    (hread : Reads (tightReadFilter client (byte >>> 4) : Reader κ _) header (palette, false))
    {r : Rect} (hw : r.cols ≤ TIGHT_MAX_WIDTH) {data : List Byte}
    (hlen : data.length = tightDataSize client palette.length r.cols r.rows)
    {filters : OtherFilters width.bytes} {image : Block (RawPixel width.bytes)}
    (hpixels : tightDecodePixels client filters palette false r.cols r.rows data = .ok image)
    (frame : Point → RawPixel width.bytes) (hfits : s.Fits streamId data) :
    ∃ copy zis', Reads (tightReadRect client r.cols r.rows : Reader κ _)
        (byte :: (header ++ (tightWriteData s streamId data.length data).1)) copy ∧
      Reads (tightDecodeRect client filters Z zis r frame : Reader κ _) copy
        (imageRect r image frame, zis') ∧
      (tightWriteData s streamId data.length data).2.Together zis' := by
  have hstep : Z.InStep
      (if s.resets then Z.resetDeflate (s.zlibStreams streamId) else s.zlibStreams streamId)
      (afterControl zis s.resets streamId streamId) := by
    unfold afterControl
    cases hresets : s.resets
    · simpa using hs hresets streamId
    · simpa using Z.inStep_reset _ _
  obtain ⟨copy, zis', hdata, hdecode, hstreams⟩ := reads_copyData (κ := κ) hfits hstep
  refine ⟨byte :: (header ++ copy),
    Function.update (afterControl zis s.resets streamId) streamId zis', ?_, ?_, ?_⟩
  · have hrect := consumes_readRect hw hbyte hcopy (h := r.rows)
    rw [← hlen] at hrect
    exact hrect.trans (Consumes.last hdata rfl)
  · have hrect : Consumes (tightDecodeRect client filters Z zis r frame : Reader κ _) _ _ :=
      consumes_decodeRect hbyte hread
    rw [← hlen] at hrect
    refine hrect.trans (Consumes.last hdecode ?_)
    dsimp only
    rw [hpixels]
  · intro hresets i
    rcases hstreams with ⟨hsame, rfl⟩ | ⟨zs, hnew, hstep'⟩
    · rw [hsame] at hresets ⊢
      rw [Function.update_eq_self]
      simpa [afterControl, hresets] using hs hresets i
    · rw [hnew] at hresets ⊢
      by_cases hi : i = streamId
      · subst hi
        simpa using hstep'
      · have hold := hs hresets i
        have hresets' : s.resets = false := hresets
        simpa [Function.update_of_ne hi, afterControl, hresets'] using hold

/-- The client reads no other rectangles. -/
theorem fits_of_reads_basic {s : TightStreams Z} {byte : Byte}
    (hbyte : byte = tightControl s.resets streamId (filterOf explicit)) {palSize : ℕ}
    (hcopy : Reads (tightCopyFilter client (byte >>> 4) : Reader κ _) header (header, palSize))
    (hw : w ≤ TIGHT_MAX_WIDTH) {data : List Byte}
    (hlen : data.length = tightDataSize client palSize w h) {copy : List Byte}
    (hread : Reads (tightReadRect client w h : Reader κ _)
      (byte :: (header ++ (tightWriteData s streamId data.length data).1)) copy) :
    s.Fits streamId data := by
  have hrect := consumes_readRect hw hbyte hcopy (h := h)
  rw [← hlen] at hrect
  have hbody := hrect (tightWriteData s streamId data.length data).1 []
  have hall := hread [] []
  rw [List.append_nil] at hall
  rw [List.cons_append, hall] at hbody
  change _ = Except.bind (tightCopyData data.length
    ⟨(tightWriteData s streamId data.length data).1, []⟩) _ at hbody
  cases hdata : (tightCopyData data.length : Reader κ _)
      ⟨(tightWriteData s streamId data.length data).1, []⟩ with
  | error msg =>
    rw [hdata] at hbody
    cases hbody
  | ok res =>
    rw [hdata] at hbody
    have hstate : (⟨[], []⟩ : ReadState κ) = res.2 :=
      congrArg Prod.snd (Except.ok.inj hbody)
    have hend : (tightCopyData data.length : Reader κ _)
        ⟨(tightWriteData s streamId data.length data).1, []⟩ = .ok (res.1, ⟨[], []⟩) := by
      rw [hdata, hstate]
    exact fits_of_copyData hend

end Basic

/-! ## Pixels and palettes -/

section Pixels

variable {client buffer : PixelFormatOf width}

/-- A pixel as the client has it. -/
def tightRecode (client : PixelFormatOf width) (v : RawPixel width.bytes) : RawPixel width.bytes :=
  if client.is888 then client.bufferFromRGB (client.rgbFromBuffer v) else v

theorem rgb_tightRecode (v : RawPixel width.bytes) :
    client.rgb (tightRecode client v) = client.rgb v := by
  unfold tightRecode
  split
  · rename_i h888
    exact rgb_bufferFromRGB h888 v
  · rfl

/-- Both ends decide in the same way whether a pixel has three bytes. -/
theorem tightWritePixel_eq (heq : client.equal buffer) (v : RawPixel width.bytes) :
    tightWritePixel buffer v = if client.is888 then client.rgbFromBuffer v else v.val := by
  unfold tightWritePixel
  by_cases h888 : client.is888
  · have hbuffer := (is888_of_equal heq).mp h888
    have hwidth : width = .bpp32 := h888.2.1
    rw [if_neg (not_or.mpr ⟨not_not.mpr hwidth, not_not.mpr hbuffer⟩), if_pos h888,
      rgbFromBuffer_eq heq h888]
  · have hbuffer : ¬buffer.is888 := mt (is888_of_equal heq).mpr h888
    rw [if_pos (Or.inr hbuffer), if_neg h888]

theorem length_tightWritePixel (heq : client.equal buffer) (v : RawPixel width.bytes) :
    (tightWritePixel buffer v).length = tightPixelSize client := by
  rw [tightWritePixel_eq heq, tightPixelSize]
  split
  · rfl
  · exact v.property

theorem reads_tightPixel (heq : client.equal buffer) (v : RawPixel width.bytes) :
    Reads (tightReadPixel client : Reader κ _) (tightWritePixel buffer v)
      (tightRecode client v) := by
  rw [tightWritePixel_eq heq]
  unfold tightReadPixel tightRecode
  by_cases h888 : client.is888
  · rw [if_pos h888, if_pos h888, if_pos h888, map_eq_pure_bind]
    exact Consumes.last (reads_bytes (client.rgbFromBuffer v)) rfl
  · rw [if_neg h888, if_neg h888, if_neg h888]
    exact reads_pixel v

/-- The palette filter and its palette. -/
theorem reads_paletteFilter (heq : client.equal buffer) {comp_ctl : Byte}
    (hexplicit : comp_ctl &&& tightExplicitFilter ≠ 0) {colours : List (RawPixel width.bytes)}
    (hpos : 0 < colours.length) (hle : colours.length ≤ 256) :
    let header := tightFilterPalette :: BitVec.ofNat 8 (colours.length - 1) ::
      tightWritePixels buffer colours
    Reads (tightCopyFilter client comp_ctl : Reader κ _) header (header, colours.length) ∧
      Reads (tightReadFilter client comp_ctl : Reader κ _) header
        (colours.map (tightRecode client), false) := by
  have hsize : (BitVec.ofNat 8 (colours.length - 1)).toNat + 1 = colours.length := by
    rw [BitVec.toNat_ofNat]
    omega
  have hbytes : (tightWritePixels buffer colours).length =
      colours.length * tightPixelSize client :=
    length_flatMap_of_length fun v _ => length_tightWritePixel heq v
  constructor
  · unfold tightCopyFilter
    rw [if_pos hexplicit]
    refine Consumes.u8 ?_
    rw [if_pos rfl]
    refine Consumes.u8 ?_
    rw [hsize, ← hbytes]
    exact Consumes.last (reads_bytes _) rfl
  · unfold tightReadFilter
    rw [if_pos hexplicit]
    refine Consumes.u8 ?_
    rw [if_pos rfl]
    refine Consumes.u8 ?_
    rw [hsize]
    exact Consumes.last (reads_many (fun v => reads_tightPixel heq v) colours) rfl

end Pixels

/-! ## The whole rectangle -/

/-- What a rectangle has to be compressed, and by which stream. -/
def tightData (pf : PixelFormatOf width) (palette : Palette (RawPixel width.bytes))
    (pb : PreparedBuffer (RawPixel width.bytes)) : Fin 4 × List Byte :=
  match palette.size with
  | 0 => (0, tightWritePixels pf pb.pixels)
  | 1 => (0, [])
  | 2 => (1, tightMonoData palette pb)
  | _ =>
    if width = .bpp8 then (0, tightWritePixels pf pb.pixels) else (2, tightIndexedData palette pb)

/-- A rectangle on its way to a client. The buffer it is taken from has the client's
format, or the server's if that is `equal`. -/
structure TightRect (client : PixelFormatOf width) where
  buffer : PixelFormatOf width
  Z : Zlib
  streams : TightStreams Z
  zis : Fin 4 → Z.Inflate
  filters : OtherFilters width.bytes
  pb : PreparedBuffer (RawPixel width.bytes)
  maxColours : ℕ
  pos : Point
  frame : Point → RawPixel width.bytes
  equal : client.equal buffer
  together : streams.Together zis
  maxColours_le : maxColours ≤ 256
  width_le : pb.width ≤ TIGHT_MAX_WIDTH

namespace TightRect

variable {client : PixelFormatOf width} (r : TightRect client)

def palette : Palette (RawPixel width.bytes) := paletteOf r.maxColours r.pb.pixels

/-- The rectangle in the frame. -/
def rect : Rect := r.pb.getRect.translate r.pos

/-- What the encoder writes. -/
def written : Except Fault (List Byte × TightStreams r.Z) :=
  tightWriteRect r.buffer r.palette r.pb r.streams

/-- The data is short, or has a compressed length of up to 22 bits. -/
def Fits : Prop :=
  r.streams.Fits (tightData r.buffer r.palette r.pb).1 (tightData r.buffer r.palette r.pb).2

/-- The client copies the bytes as a whole, decodes the colours of the buffer from the
copy, and the streams of the two ends are together again. -/
def Works : Prop :=
  ∃ bytes streams' copy frame' zis', r.written = .ok (bytes, streams') ∧
    Reads (tightReadRect client r.rect.cols r.rect.rows : Reader Empty _) bytes copy ∧
    Reads (tightDecodeRect client r.filters r.Z r.zis r.rect r.frame : Reader Empty _) copy
      (frame', zis') ∧
    streams'.Together zis' ∧
    (∀ p ∈ Region.ofRect r.pb.getRect,
      client.rgb (frame' (p + r.pos)) = r.buffer.rgb (r.pb.pixel p)) ∧
    ∀ p ∉ Region.ofRect r.pb.getRect, frame' (p + r.pos) = r.frame (p + r.pos)

variable {r}

theorem cols_rect (r : TightRect client) : r.rect.cols = r.pb.width :=
  (Rect.cols_translate r.pb.getRect r.pos).trans r.pb.cols_getRect

theorem rows_rect (r : TightRect client) : r.rect.rows = r.pb.height :=
  (Rect.rows_translate r.pb.getRect r.pos).trans r.pb.rows_getRect

/-- An image that shows the buffer, put into the frame. -/
theorem shown_image {image : Block (RawPixel width.bytes)}
    (himage : ∀ x < r.pb.width, ∀ y < r.pb.height,
      client.rgb (image x y) = r.buffer.rgb (r.pb.getImage r.pb.getRect x y)) :
    (∀ p ∈ Region.ofRect r.pb.getRect,
      client.rgb (imageRect r.rect image r.frame (p + r.pos)) = r.buffer.rgb (r.pb.pixel p)) ∧
    ∀ p ∉ Region.ofRect r.pb.getRect,
      imageRect r.rect image r.frame (p + r.pos) = r.frame (p + r.pos) :=
  shown_whole_image (E := fun v p => client.rgb v = r.buffer.rgb p) r.frame himage

/-- A rectangle with data works if the data fits. -/
theorem works_iff_of_basic (explicit : Bool) (header : List Byte) {streamId : Fin 4}
    {data : List Byte} {palette : List (RawPixel width.bytes)}
    {image : Block (RawPixel width.bytes)} {byte : Byte}
    (hbyte : byte = tightControl r.streams.resets streamId (filterOf explicit))
    (hwritten : r.written = .ok (byte :: (header ++
      (tightWriteData r.streams streamId data.length data).1),
      (tightWriteData r.streams streamId data.length data).2))
    (hcopy : Reads (tightCopyFilter client (byte >>> 4) : Reader Empty _) header
      (header, palette.length))
    (hread : Reads (tightReadFilter client (byte >>> 4) : Reader Empty _) header (palette, false))
    (hlen : data.length = tightDataSize client palette.length r.pb.width r.pb.height)
    (hpixels : tightDecodePixels client r.filters palette false r.pb.width r.pb.height data =
      .ok image)
    (himage : ∀ x < r.pb.width, ∀ y < r.pb.height,
      client.rgb (image x y) = r.buffer.rgb (r.pb.getImage r.pb.getRect x y)) :
    r.Works ↔ r.streams.Fits streamId data := by
  rw [← cols_rect, ← rows_rect] at hlen hpixels
  have hw : r.rect.cols ≤ TIGHT_MAX_WIDTH := by
    rw [cols_rect]
    exact r.width_le
  constructor
  · rintro ⟨bytes, streams', copy, frame', zis', hok, hrect, -⟩
    obtain ⟨rfl, -⟩ := Prod.mk.inj (Except.ok.inj (hwritten.symm.trans hok))
    exact fits_of_reads_basic hbyte hcopy hw hlen hrect
  · intro hfits
    obtain ⟨copy, zis', hrect, hdecode, htogether⟩ := reads_basic r.together hbyte hcopy hread hw
      hlen hpixels r.frame hfits
    obtain ⟨hin, hout⟩ := shown_image himage
    exact ⟨_, _, copy, _, zis', hwritten, hrect, hdecode, htogether, hin, hout⟩

theorem tallies_palette (h : r.palette.size ≠ 0) :
    Tallies r.palette r.pb.pixels ∧ r.palette.size ≤ 256 := by
  have hmax := r.maxColours_le
  unfold palette at h ⊢
  rcases paletteOf_spec r.maxColours r.pb.pixels with hempty | ⟨htally, hle⟩
  · rw [hempty] at h
    exact absurd rfl h
  · exact ⟨htally, hle.trans hmax⟩

/-- The pixels have colours of the palette. -/
theorem getImage_mem_colours (h : r.palette.size ≠ 0) {x y : ℕ} (hx : x < r.pb.width)
    (hy : y < r.pb.height) : r.pb.getImage r.pb.getRect x y ∈ r.palette.colours :=
  ((tallies_palette h).1.mem_iff _).mpr (mem_raster.mpr ⟨x, hx, y, hy, rfl⟩)

/-- One colour. -/
theorem works_of_solid (hone : r.palette.size = 1) : r.Works := by
  let colour := r.palette.getColour 0
  have hfill : (tightFill <<< 4) >>> 4 = tightFill := by decide
  have hzis : (fun i : Fin 4 => if (tightFill <<< 4).getLsbD i then r.Z.resetInflate (r.zis i)
      else r.zis i) = r.zis := by
    have hbits : ∀ i : Fin 4, (tightFill <<< 4).getLsbD i = false := by decide
    funext i
    rw [hbits, if_neg Bool.false_ne_true]
  have himage : ∀ x < r.pb.width, ∀ y < r.pb.height, client.rgb (tightRecode client colour) =
      r.buffer.rgb (r.pb.getImage r.pb.getRect x y) := by
    intro x hx y hy
    have hmem := getImage_mem_colours (by omega) hx hy
    rw [Palette.colours_of_size_one hone] at hmem
    rw [List.mem_singleton.mp hmem, rgb_tightRecode, equal_rgb r.equal]
  obtain ⟨hin, hout⟩ := shown_image himage
  refine ⟨tightWriteSolid r.buffer colour, r.streams, tightWriteSolid r.buffer colour, _, r.zis,
    ?_, ?_, ?_, r.together, hin, hout⟩
  · unfold written tightWriteRect
    rw [hone]
    rfl
  · refine Consumes.u8 ?_
    rw [if_pos hfill, ← length_tightWritePixel r.equal colour]
    exact Consumes.last (reads_bytes _) rfl
  · refine Consumes.u8 ?_
    rw [if_pos hfill, hzis]
    exact Consumes.last (reads_tightPixel r.equal colour) rfl

theorem works_iff_of_full
    (hwritten : r.written = .ok (tightWriteFullColour r.buffer r.pb r.streams)) :
    r.Works ↔ r.streams.Fits 0 (tightWritePixels r.buffer r.pb.pixels) := by
  have hcount : r.pb.pixels.length = r.pb.height * r.pb.width := length_raster _ _ _
  have hbytes : (tightWritePixels r.buffer r.pb.pixels).length =
      r.pb.pixels.length * tightPixelSize client :=
    length_flatMap_of_length fun v _ => length_tightWritePixel r.equal v
  have hlen : (tightWritePixels r.buffer r.pb.pixels).length =
      tightDataSize client ([] : List (RawPixel width.bytes)).length r.pb.width r.pb.height := by
    rw [hbytes, hcount, Nat.mul_assoc]
    rfl
  have hnone : ∀ resets : Bool,
      ¬tightControl resets 0 (filterOf false) >>> 4 &&& tightExplicitFilter ≠ 0 := by decide
  have hpixels : tightDecodePixels client r.filters [] false r.pb.width r.pb.height
      (tightWritePixels r.buffer r.pb.pixels) =
      .ok (bufferBlock r.pb.width (r.pb.pixels.map (tightRecode client))) := by
    have hread := reads_many (κ := Empty) (fun v => reads_tightPixel r.equal v) r.pb.pixels
    rw [hcount] at hread
    have hall := hread [] []
    rw [List.append_nil] at hall
    unfold tightDecodePixels
    rw [if_neg (by simp)]
    exact congrArg (Except.map _) hall
  refine works_iff_of_basic false [] rfl ?_ ?_ ?_ hlen hpixels fun x hx y hy => ?_
  · -- the encoder works out the length for itself
    have hlength : (if width ≠ .bpp32 ∨ ¬r.buffer.is888 then
        r.pb.width * r.pb.height * width.bytes else r.pb.width * r.pb.height * 3) =
        (tightWritePixels r.buffer r.pb.pixels).length := by
      rw [hbytes, hcount, tightPixelSize, Nat.mul_comm r.pb.width]
      by_cases h888 : client.is888
      · have hbuffer := (is888_of_equal r.equal).mp h888
        have hwidth : width = .bpp32 := h888.2.1
        rw [if_neg (not_or.mpr ⟨not_not.mpr hwidth, not_not.mpr hbuffer⟩), if_pos h888]
      · have hbuffer : ¬r.buffer.is888 := mt (is888_of_equal r.equal).mpr h888
        rw [if_pos (Or.inr hbuffer), if_neg h888]
    rw [hwritten, tightWriteFullColour]
    dsimp only
    rw [hlength]
    rfl
  · unfold tightCopyFilter
    rw [if_neg (hnone _)]
    exact consumes_refl _
  · unfold tightReadFilter
    rw [if_neg (hnone _)]
    exact consumes_refl _
  · rw [PreparedBuffer.pixels, bufferBlock_raster hx hy, rgb_tightRecode, equal_rgb r.equal]

/-- A rectangle with a palette works if its data fits and is filtered back. -/
theorem works_iff_of_palette {streamId : Fin 4} (colours : List (RawPixel width.bytes))
    (pixel : RawPixel width.bytes → RawPixel width.bytes) (hpos : 0 < colours.length)
    (hle : colours.length ≤ 256) {data : List Byte}
    (hwritten : r.written = .ok
      (tightControl r.streams.resets streamId tightExplicitFilter :: tightFilterPalette ::
        BitVec.ofNat 8 (colours.length - 1) :: (tightWritePixels r.buffer colours ++
          (tightWriteData r.streams streamId data.length data).1),
        (tightWriteData r.streams streamId data.length data).2))
    (hlen : data.length = tightDataSize client colours.length r.pb.width r.pb.height)
    (hfilter : Reads (filterPalette (colours.map (tightRecode client)) r.pb.width r.pb.height :
      Reader Empty _) data (r.pb.pixels.map pixel))
    (hpixel : ∀ c ∈ r.pb.pixels, client.rgb (pixel c) = client.rgb c) :
    r.Works ↔ r.streams.Fits streamId data := by
  obtain ⟨-, hexplicit, -⟩ := control_bits r.streams.resets streamId true
  obtain ⟨hcopy, hread⟩ := reads_paletteFilter (κ := Empty) r.equal (hexplicit.mpr rfl) hpos hle
  have hlength : (colours.map (tightRecode client)).length = colours.length := List.length_map _
  have hpixels : tightDecodePixels client r.filters (colours.map (tightRecode client)) false
      r.pb.width r.pb.height data = .ok (bufferBlock r.pb.width (r.pb.pixels.map pixel)) := by
    have hall := hfilter [] []
    rw [List.append_nil] at hall
    unfold tightDecodePixels
    rw [hlength, if_neg (by simp)]
    dsimp only
    rw [if_neg (by omega)]
    exact congrArg (Except.map _) hall
  refine works_iff_of_basic true
    (tightFilterPalette :: BitVec.ofNat 8 (colours.length - 1) ::
      tightWritePixels r.buffer colours) rfl hwritten (hlength.symm ▸ hcopy) hread
    (hlength.symm ▸ hlen) hpixels fun x hx y hy => ?_
  rw [PreparedBuffer.pixels, bufferBlock_raster hx hy, ← equal_rgb r.equal]
  exact hpixel _ (mem_raster.mpr ⟨x, hx, y, hy, rfl⟩)

theorem works_iff_of_mono (htwo : r.palette.size = 2) :
    r.Works ↔ r.streams.Fits 1 (tightMonoData r.palette r.pb) := by
  let bg := r.palette.getColour 0
  let fg := r.palette.getColour 1
  let colours := [tightRecode client bg, tightRecode client fg]
  have hcolours : r.palette.colours = [bg, fg] := Palette.colours_of_size_two htwo
  have hbytes : (tightMonoData r.palette r.pb).length = r.pb.height * ((r.pb.width + 7) / 8) := by
    have hrows := length_flatMap_of_length (l := List.range r.pb.height) fun y _ =>
      length_monoRow bg (fun x => r.pb.getImage r.pb.getRect x y) r.pb.width
    rw [List.length_range] at hrows
    exact hrows
  have hwritten : r.written = tightWriteMono r.buffer r.palette r.pb r.streams := by
    unfold written tightWriteRect
    rw [htwo]
    rfl
  refine works_iff_of_palette [bg, fg] (fun c => colours.getD (if c ≠ bg then 1 else 0) default)
    Nat.two_pos (Nat.le_of_ble_eq_true rfl) ?_ hbytes ?_ fun c hc => ?_
  · rw [hwritten, tightWriteMono, require_ok htwo, hbytes, Nat.mul_comm r.pb.height]
    rfl
  · have hrows : Reads
        (readMany (filterMonoRow colours r.pb.width) (List.range r.pb.height).length :
          Reader Empty _) _ _ := reads_manyOf fun y _ =>
      reads_filterMonoRow colours bg (fun x => r.pb.getImage r.pb.getRect x y) r.pb.width
    rw [List.length_range] at hrows
    unfold filterPalette
    rw [if_pos (by simp), map_eq_pure_bind]
    refine Consumes.last hrows ?_
    rw [PreparedBuffer.pixels, raster, List.map_flatMap, List.flatMap_def]
    simp [Function.comp_def]
  · have hmem := ((tallies_palette (by omega)).1.mem_iff c).mpr hc
    rw [hcolours] at hmem
    by_cases hbg : c = bg
    · rw [if_neg (not_not.mpr hbg), hbg]
      exact rgb_tightRecode bg
    · have hfg : c = fg := by simpa [hbg] using hmem
      rw [if_pos hbg, hfg]
      exact rgb_tightRecode fg

/-- The bytes for the colours, whether they are looked up again or not. -/
theorem tightIndices_eq (palette : Palette (RawPixel width.bytes)) :
    ∀ (c : RawPixel width.bytes) (cs : List (RawPixel width.bytes)),
      tightIndices palette c (BitVec.ofNat 8 (palette.lookup c)) cs =
        cs.map fun c => BitVec.ofNat 8 (palette.lookup c)
  | _, [] => rfl
  | c, d :: ds => by
    rw [tightIndices, List.map_cons]
    by_cases hd : d ≠ c
    · rw [if_pos hd, tightIndices_eq palette d ds]
    · obtain rfl := not_not.mp hd
      rw [if_neg hd, tightIndices_eq palette d ds]

theorem works_iff_of_indexed (hmany : 2 < r.palette.size)
    (hwritten : r.written = tightWriteIndexed r.buffer r.palette r.pb r.streams) :
    r.Works ↔ r.streams.Fits 2 (tightIndexedData r.palette r.pb) := by
  obtain ⟨htally, hle⟩ := tallies_palette (r := r) (by omega)
  have hlength : r.palette.colours.length = r.palette.size := List.length_map _
  have hdata : tightIndexedData r.palette r.pb =
      r.pb.pixels.map fun c => BitVec.ofNat 8 (r.palette.lookup c) :=
    tightIndices_eq r.palette _ _
  have hcount : r.pb.pixels.length = r.pb.height * r.pb.width := length_raster _ _ _
  have hbytes : (tightIndexedData r.palette r.pb).length = r.pb.height * r.pb.width := by
    rw [hdata, List.length_map, hcount]
  have hlen : (tightIndexedData r.palette r.pb).length =
      tightDataSize client r.palette.colours.length r.pb.width r.pb.height := by
    rw [hbytes, tightDataSize, if_pos (by omega), if_neg (by omega)]
  have hmem : ∀ c ∈ r.pb.pixels, c ∈ r.palette.colours := fun c hc => (htally.mem_iff c).mpr hc
  refine works_iff_of_palette r.palette.colours (tightRecode client) (by omega) (by omega) ?_ hlen
    ?_ fun c _ => rgb_tightRecode c
  · have hrequire : r.palette.size > 0 ∧ r.palette.size ≤ 256 ∧
        ∀ c ∈ r.pb.pixels, c ∈ r.palette.colours := ⟨by omega, hle, hmem⟩
    rw [hwritten, tightWriteIndexed, require_ok hrequire, hbytes, Nat.mul_comm r.pb.height, hlength]
    rfl
  · have hindex : ∀ c ∈ r.pb.pixels, Reads
        ((fun index : Byte =>
          (r.palette.colours.map (tightRecode client)).getD index.toNat default) <$> readU8 :
            Reader Empty _)
        [BitVec.ofNat 8 (r.palette.lookup c)] (tightRecode client c) := by
      intro c hc
      have hlt := Palette.lookup_lt (hmem c hc)
      rw [map_eq_pure_bind]
      refine Consumes.last (reads_u8 _) ?_
      rw [BitVec.toNat_ofNat, Nat.mod_eq_of_lt (by omega), List.getD_eq_getElem?_getD,
        List.getElem?_map, Palette.getElem?_lookup (hmem c hc)]
      rfl
    have hread := reads_manyOf hindex
    rw [hcount, ← List.map_eq_flatMap, ← hdata] at hread
    unfold filterPalette
    rw [if_neg (by rw [List.length_map, hlength]; omega)]
    exact hread

theorem works_iff_fits (r : TightRect client) : r.Works ↔ r.Fits := by
  have hwritten : r.written = tightWriteRect r.buffer r.palette r.pb r.streams := rfl
  unfold Fits tightData
  unfold tightWriteRect at hwritten
  match hsize : r.palette.size with
  | 0 =>
    rw [hsize] at hwritten
    exact works_iff_of_full hwritten
  | 1 => exact iff_of_true (works_of_solid hsize) (Or.inl (show (0 : ℕ) < 12 by decide))
  | 2 => exact works_iff_of_mono hsize
  | n + 3 =>
    rw [hsize] at hwritten
    by_cases hnarrow : width = .bpp8
    · rw [if_pos hnarrow]
      exact works_iff_of_full (hwritten.trans (if_pos hnarrow))
    · rw [if_neg hnarrow]
      exact works_iff_of_indexed (by omega) (hwritten.trans (if_neg hnarrow))

/-- With more colours than a palette holds there is none. -/
theorem size_palette_eq_zero (colours : List (RawPixel width.bytes)) (hnodup : colours.Nodup)
    (hmany : 256 < colours.length)
    (hmem : ∀ c ∈ colours, ∃ x < r.pb.width, ∃ y < r.pb.height,
      r.pb.getImage r.pb.getRect x y = c) : r.palette.size = 0 := by
  by_contra hsize
  have hsub : colours ⊆ r.palette.colours := fun c hc => by
    obtain ⟨x, hx, y, hy, rfl⟩ := hmem c hc
    exact getImage_mem_colours hsize hx hy
  have hle := (hnodup.subperm hsub).length_le
  have hlength : r.palette.colours.length = r.palette.size := List.length_map _
  have hpalette : r.palette.size ≤ 256 := r.palette.size_le
  omega

end TightRect

/-- **Tight round trip.** For each pixel format, the rectangles of up to 2048 columns whose
data is short enough are read as a whole and decoded to the colours they were made from. -/
theorem tight_round_trip {client : PixelFormatOf width} (r : TightRect client) :
    r.Works ↔ r.Fits :=
  r.works_iff_fits

/-! ### The whole screen in video mode -/

/-- A pixel whose red and green count the columns. -/
def columnPixel (x : ℕ) : RawPixel PixelWidth.bpp32.bytes :=
  ⟨[.ofNat 8 x, .ofNat 8 (x / 256), 0, 0], rfl⟩

/-- A screen of many colours, in a stream that does not make it any smaller. -/
def colourfulScreen : TightRect pfRGBX where
  buffer := pfRGBX
  Z := .stored
  streams := ⟨fun _ => (), false, false⟩
  zis := fun _ => ()
  filters := ⟨fun _ => default, fun _ => default⟩
  pb := ⟨1920, 1080, fun p => columnPixel p.1.toNat⟩
  maxColours := 256
  pos := (0, 0)
  frame := fun _ => default
  equal := equal_refl pfRGBX
  together := fun _ _ => trivial
  maxColours_le := le_rfl
  width_le := by decide

theorem columnPixel_inj {x y : ℕ} (hx : x < 1920) (hy : y < 1920)
    (h : columnPixel x = columnPixel y) : x = y := by
  obtain ⟨hred, htail⟩ := List.cons.inj (congrArg Subtype.val h)
  have hred' := congrArg BitVec.toNat hred
  have hgreen' := congrArg BitVec.toNat (List.cons.inj htail).1
  rw [BitVec.toNat_ofNat, BitVec.toNat_ofNat] at hred' hgreen'
  omega

/-- A client without WEBP, while a video is shown. -/
def videoClient : EncodeContext :=
  { onePixelContext false false with pbRect := ⟨(0, 0), (1920, 1080)⟩ }

/-- One changed pixel makes the screen a rectangle, and the length of its data does not
fit. -/
theorem tight_cuts_length :
    let m : EncodeManager := ⟨true, fun _ => 0, 0⟩
    (m.mainRects videoClient {(0, 0)}).flatMap (m.subRects videoClient) =
        [colourfulScreen.pb.getRect] ∧
      ¬colourfulScreen.Works := by
  refine ⟨by decide, fun hworks => ?_⟩
  have hsize : colourfulScreen.palette.size = 0 := by
    refine TightRect.size_palette_eq_zero ((List.range 1920).map columnPixel) ?_ ?_ ?_
    · refine List.Nodup.map_on (fun x hx y hy h => ?_) List.nodup_range
      exact columnPixel_inj (List.mem_range.mp hx) (List.mem_range.mp hy) h
    · rw [List.length_map, List.length_range]
      omega
    · intro c hc
      obtain ⟨x, hx, rfl⟩ := List.mem_map.mp hc
      refine ⟨x, List.mem_range.mp hx, 0, Nat.zero_lt_succ _, ?_⟩
      show columnPixel (0 + (x : ℤ)).toNat = _
      rw [zero_add, Int.toNat_natCast]
  have hdata : tightData colourfulScreen.buffer colourfulScreen.palette colourfulScreen.pb =
      (0, tightWritePixels pfRGBX colourfulScreen.pb.pixels) := by
    unfold tightData
    rw [hsize]
    rfl
  have hlength : (tightWritePixels pfRGBX colourfulScreen.pb.pixels).length = 1080 * 1920 * 3 := by
    have hcount : colourfulScreen.pb.pixels.length = 1080 * 1920 := length_raster _ _ _
    rw [tightWritePixels, length_flatMap_of_length fun v _ =>
      length_tightWritePixel (equal_refl pfRGBX) v, hcount]
    rfl
  have hstored : ∀ i data, (colourfulScreen.streams.compress i data).1 = data := fun _ _ => rfl
  have hfits := colourfulScreen.works_iff_fits.mp hworks
  unfold TightRect.Fits at hfits
  rw [hdata] at hfits
  rcases hfits with hshort | hfits
  · dsimp only at hshort
    omega
  · rw [hstored] at hfits
    dsimp only at hfits
    omega

end KasmVNC.Rfb
