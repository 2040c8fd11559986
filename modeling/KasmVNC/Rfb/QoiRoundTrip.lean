import KasmVNC.Rfb.Qoi

/-!
# QOI images come back

Every operation of the encoder gives the decoder the colours of the next pixels. A pixel that
differs from the one before it only in its unused byte is written as a difference of zero.
-/

namespace KasmVNC.Rfb

open KasmVNC.Lib

/-! ## Fields of an operation -/

/-- A difference is stored with a bias, as a number of a few bits. -/
theorem biased_field {n : ℕ} {v : Byte} (hlow : -(n : ℤ) ≤ v.toInt)
    (hhigh : v.toInt < n) : ∃ i : Fin (2 * n), v + BitVec.ofNat 8 n = BitVec.ofNat 8 i := by
  have hv : v.toNat < 256 := v.isLt
  rw [BitVec.toInt_eq_toNat_cond] at hlow hhigh
  have hlt : (v + BitVec.ofNat 8 n).toNat < 2 * n := by
    rw [BitVec.toNat_add, BitVec.toNat_ofNat]
    split at hlow <;> omega
  exact ⟨⟨_, hlt⟩, ((BitVec.ofNat_toNat 8 _).trans (BitVec.setWidth_eq _)).symm⟩

theorem two_bits {v : Byte} (hlow : v.toInt > -3) (hhigh : v.toInt < 2) :
    ∃ i : Fin 4, v + 2 = BitVec.ofNat 8 i :=
  biased_field (n := 2) (by omega) hhigh

theorem four_bits {v : Byte} (hlow : v.toInt > -9) (hhigh : v.toInt < 8) :
    ∃ i : Fin 16, v + 8 = BitVec.ofNat 8 i :=
  biased_field (n := 8) (by omega) hhigh

theorem six_bits {v : Byte} (hlow : v.toInt > -33) (hhigh : v.toInt < 32) :
    ∃ i : Fin 64, v + 32 = BitVec.ofNat 8 i :=
  biased_field (n := 32) (by omega) hhigh

theorem diff_fields : ∀ i j k : Fin 4,
    let b1 := (0x40 : Byte) ||| BitVec.ofNat 8 i <<< 4 ||| BitVec.ofNat 8 j <<< 2 |||
      BitVec.ofNat 8 k
    (b1 ≠ 0xfe ∧ b1 ≠ 0xff ∧ b1 &&& 0xc0 = 0x40) ∧
      b1 >>> 4 &&& 0x03 = BitVec.ofNat 8 i ∧ b1 >>> 2 &&& 0x03 = BitVec.ofNat 8 j ∧
      b1 &&& 0x03 = BitVec.ofNat 8 k := by
  decide

theorem luma_field : ∀ i : Fin 64,
    let b1 : Byte := 0x80 ||| BitVec.ofNat 8 i
    (b1 ≠ 0xfe ∧ b1 ≠ 0xff ∧ b1 &&& 0xc0 = 0x80) ∧ b1 &&& 0x3f = BitVec.ofNat 8 i := by
  decide

theorem luma_fields : ∀ i j : Fin 16,
    let b2 : Byte := BitVec.ofNat 8 i <<< 4 ||| BitVec.ofNat 8 j
    b2 >>> 4 &&& 0x0f = BitVec.ofNat 8 i ∧ b2 &&& 0x0f = BitVec.ofNat 8 j := by
  decide

/-- Runs of up to 62 pixels do not look like the tags of eight bits. -/
theorem run_field : ∀ i : Fin 62,
    let b1 : Byte := 0xc0 ||| BitVec.ofNat 8 i
    (b1 ≠ 0xfe ∧ b1 ≠ 0xff ∧ b1 &&& 0xc0 = 0xc0) ∧ (b1 &&& 0x3f).toNat = i := by
  decide

/-! ## Arithmetic that wraps around -/

theorem add_difference (u v : Byte) : u + (v - u) = v := by
  rw [BitVec.add_comm, BitVec.sub_add_cancel]

/-- A difference that was stored with a bias. -/
theorem add_biased {u v bias stored : Byte} (h : v - u + bias = stored) :
    u + (stored - bias) = v := by
  rw [← h, BitVec.add_sub_cancel, add_difference]

/-- A difference that was stored as its difference to the one of green. -/
theorem add_luma (u v vg : Byte) : u + (vg - 8 + (v - u - vg + 8)) = v := by
  rw [BitVec.add_comm _ 8, ← BitVec.add_assoc (vg - 8), BitVec.sub_add_cancel, add_difference,
    add_difference]

/-! ## One operation -/

namespace QoiDecoder

variable {d : QoiDecoder}

/-- The operation of a pixel gives its colours. -/
theorem operation_difference {px prev : QoiRgba} {tail : List Byte}
    (hcolours : d.px.rgb = prev.rgb) (hrest : d.rest = qoiDifference px prev ++ tail) :
    d.operation.px.rgb = px.rgb ∧ d.operation.rest = tail ∧ d.operation.run = d.run := by
  obtain ⟨⟨r, g, b, a⟩, index, run, rest⟩ := d
  obtain ⟨pr, pg, pb, pa⟩ := prev
  simp only [QoiRgba.rgb, List.cons.injEq, and_true] at hcolours
  obtain ⟨rfl, rfl, rfl⟩ := hcolours
  dsimp only at hrest
  subst hrest
  unfold qoiDifference
  dsimp only
  split
  · next hsmall =>
      obtain ⟨⟨hr, hr'⟩, ⟨hg, hg'⟩, hb, hb'⟩ := hsmall
      obtain ⟨i, hi⟩ := two_bits hr hr'
      obtain ⟨j, hj⟩ := two_bits hg hg'
      obtain ⟨k, hk⟩ := two_bits hb hb'
      rw [hi, hj, hk]
      obtain ⟨⟨hrgb, hrgba, htag⟩, h1, h2, h3⟩ := diff_fields i j k
      simp only [operation, List.cons_append, List.nil_append, if_neg hrgb, if_neg hrgba, htag,
        h1, h2, h3]
      refine ⟨?_, rfl, rfl⟩
      show [r + (_ - 2), g + (_ - 2), b + (_ - 2)] = px.rgb
      rw [add_biased hi, add_biased hj, add_biased hk]
      rfl
  · split
    · next hluma =>
        obtain ⟨⟨hr, hr'⟩, ⟨hg, hg'⟩, hb, hb'⟩ := hluma
        obtain ⟨i, hi⟩ := six_bits hg hg'
        obtain ⟨j, hj⟩ := four_bits hr hr'
        obtain ⟨k, hk⟩ := four_bits hb hb'
        have hgreen : BitVec.ofNat 8 i - 32 = px.g - g := by
          rw [← hi, BitVec.add_sub_cancel]
        rw [hi, hj, hk]
        obtain ⟨⟨hrgb, hrgba, htag⟩, h1⟩ := luma_field i
        obtain ⟨h2, h3⟩ := luma_fields j k
        simp only [operation, List.cons_append, List.nil_append, if_neg hrgb, if_neg hrgba, htag,
          h1, h2, h3, hgreen]
        refine ⟨?_, rfl, rfl⟩
        show [r + (_ - 8 + _), g + (px.g - g), b + (_ - 8 + _)] = px.rgb
        rw [← hj, ← hk, add_luma, add_luma, add_difference]
        rfl
    · exact ⟨rfl, rfl, rfl⟩

/-- The operation of a run is its first pixel. -/
theorem operation_run {run : ℕ} {tail : List Byte} (hpos : 0 < run) (hle : run ≤ 62)
    (hrest : d.rest = qoiRun run :: tail) :
    d.operation = { d with run := run - 1, rest := tail } := by
  obtain ⟨⟨hrgb, hrgba, htag⟩, hcount⟩ : (qoiRun run ≠ 0xfe ∧ qoiRun run ≠ 0xff ∧
      qoiRun run &&& 0xc0 = 0xc0) ∧ (qoiRun run &&& 0x3f).toNat = run - 1 :=
    run_field ⟨run - 1, by omega⟩
  have hother : ∀ t : Byte, t ≠ 0xc0 → qoiRun run &&& 0xc0 ≠ t := fun t ht h =>
    ht (h.symm.trans htag)
  unfold operation
  rw [hrest]
  dsimp only
  rw [if_neg hrgb, if_neg hrgba, if_neg (hother _ (by decide)), if_neg (hother _ (by decide)),
    if_neg (hother _ (by decide)), hcount]

/-! ## The loop of the decoder -/

theorem pixel_operation (hrun : d.run = 0) (hrest : qoi_padding.length < d.rest.length) :
    d.pixel = { d.operation with
      index := Function.update d.operation.index d.operation.px.hash d.operation.px } := by
  unfold pixel
  rw [if_neg (by omega), if_pos hrest]

/-- The next pixels have these colours, and behind them the decoder is `d'`. -/
def Yields (d : QoiDecoder) (colours : List (List Byte)) (d' : QoiDecoder) : Prop :=
  (d.pixels colours.length).1.map QoiRgba.rgb = colours ∧ (d.pixels colours.length).2 = d'

theorem yields_nil (d : QoiDecoder) : d.Yields [] d := ⟨rfl, rfl⟩

theorem pixels_add (m n : ℕ) (d : QoiDecoder) :
    (d.pixels (m + n)).1 = (d.pixels m).1 ++ ((d.pixels m).2.pixels n).1 ∧
      (d.pixels (m + n)).2 = ((d.pixels m).2.pixels n).2 := by
  induction m generalizing d with
  | zero =>
    rw [Nat.zero_add]
    exact ⟨rfl, rfl⟩
  | succ m ih =>
    obtain ⟨hpixels, hafter⟩ := ih d.pixel
    rw [Nat.succ_add]
    exact ⟨congrArg (d.pixel.px :: ·) hpixels, hafter⟩

theorem Yields.append {first second : List (List Byte)} {d' d'' : QoiDecoder}
    (h : d.Yields first d') (h' : d'.Yields second d'') : d.Yields (first ++ second) d'' := by
  obtain ⟨hfirst, rfl⟩ := h
  obtain ⟨hsecond, rfl⟩ := h'
  obtain ⟨hpixels, hafter⟩ := pixels_add first.length second.length d
  unfold Yields
  rw [List.length_append, hpixels, hafter, List.map_append, hfirst, hsecond]
  exact ⟨rfl, rfl⟩

/-- The decoder has no run left, shows the colours of `prev`, and `rest` is to be read. -/
def Ready (d : QoiDecoder) (prev : QoiRgba) (rest : List Byte) : Prop :=
  d.run = 0 ∧ d.px.rgb = prev.rgb ∧ d.rest = rest

/-- The other pixels of a run. -/
theorem pixels_idle (n : ℕ) (d : QoiDecoder) (hrun : d.run = n) :
    d.pixels n = (List.replicate n d.px, { d with run := 0 }) := by
  induction n generalizing d with
  | zero =>
    show ([], d) = _
    rw [← hrun]
    exact congrArg (·, d) (by rw [hrun]; rfl)
  | succ n ih =>
    have hpixel : d.pixel = { d with run := n } := by
      unfold pixel
      rw [if_pos (by omega), hrun, Nat.add_sub_cancel]
    rw [pixels, hpixel, ih _ rfl]
    rfl

/-- A whole run. -/
theorem Ready.run {prev : QoiRgba} {run : ℕ} {tail : List Byte} (hpos : 0 < run)
    (hle : run ≤ 62) (htail : qoi_padding.length ≤ tail.length)
    (h : d.Ready prev (qoiRun run :: tail)) :
    ∃ d', d.Yields (List.replicate run prev.rgb) d' ∧ d'.Ready prev tail := by
  obtain ⟨hidle, hcolours, hrest⟩ := h
  obtain ⟨n, rfl⟩ : ∃ n, run = n + 1 := ⟨run - 1, by omega⟩
  have hlong : qoi_padding.length < d.rest.length := by
    rw [hrest, List.length_cons]
    omega
  have hpixel := pixel_operation hidle hlong
  rw [operation_run hpos hle hrest] at hpixel
  refine ⟨(d.pixels (n + 1)).2, ⟨?_, ?_⟩, ?_⟩
  · rw [List.length_replicate, pixels, hpixel, Nat.add_sub_cancel, pixels_idle n _ rfl,
      List.map_cons, List.map_replicate, hcolours]
    rfl
  · rw [List.length_replicate]
  · rw [pixels, hpixel, Nat.add_sub_cancel, pixels_idle n _ rfl]
    exact ⟨rfl, hcolours, rfl⟩

/-- A pixel that differs. -/
theorem Ready.difference {px prev : QoiRgba} {tail : List Byte}
    (htail : qoi_padding.length ≤ tail.length) (h : d.Ready prev (qoiDifference px prev ++ tail)) :
    ∃ d', d.Yields [px.rgb] d' ∧ d'.Ready px tail := by
  obtain ⟨hidle, hcolours, hrest⟩ := h
  have hlong : qoi_padding.length < d.rest.length := by
    have hpos : 0 < (qoiDifference px prev).length := by
      unfold qoiDifference
      dsimp only
      split_ifs <;> simp
    rw [hrest, List.length_append]
    omega
  obtain ⟨hpx, hafter, hrun⟩ := operation_difference hcolours hrest
  have hpixel := pixel_operation hidle hlong
  refine ⟨d.pixel, ⟨?_, rfl⟩, ?_⟩
  · show [d.pixel.px.rgb] = [px.rgb]
    rw [hpixel]
    exact congrArg (List.singleton ·) hpx
  · rw [hpixel]
    exact ⟨hrun.trans hidle, hpx, hafter⟩

end QoiDecoder

/-! ## What the encoder writes -/

/-- The operations for the pixels that are left, after `run` pixels that are not written
yet. -/
def qoiChunks : QoiRgba → ℕ → List QoiRgba → List Byte
  | _, _, [] => []
  | prev, run, px :: pxs =>
    if px = prev then
      if run + 1 = 62 ∨ pxs = [] then qoiRun (run + 1) :: qoiChunks px 0 pxs
      else qoiChunks px (run + 1) pxs
    else
      (if run > 0 then [qoiRun run] else []) ++ (qoiDifference px prev ++ qoiChunks px 0 pxs)

/-- The loop of the encoder writes them. -/
theorem QoiEncoder.foldl_pixel {px_end : ℕ} : ∀ (pxs : List QoiRgba) (e : QoiEncoder),
    e.px_pos + pxs.length = px_end + 1 →
      (pxs.foldl (QoiEncoder.pixel px_end) e).bytes = e.bytes ++ qoiChunks e.px_prev e.run pxs
  | [], e, _ => (List.append_nil _).symm
  | px :: pxs, e, hpos => by
    have hlast : e.px_pos = px_end ↔ pxs = [] := by
      rw [List.length_cons] at hpos
      rw [← List.length_eq_zero_iff]
      omega
    have hnext : ∀ e' : QoiEncoder, e'.px_pos = e.px_pos + 1 →
        (pxs.foldl (QoiEncoder.pixel px_end) e').bytes =
          e'.bytes ++ qoiChunks e'.px_prev e'.run pxs := by
      intro e' he'
      refine foldl_pixel pxs e' ?_
      rw [he', Nat.add_assoc, Nat.add_comm 1]
      exact hpos
    have hpixel : (QoiEncoder.pixel px_end e px).px_pos = e.px_pos + 1 := by
      unfold QoiEncoder.pixel
      dsimp only
      split_ifs <;> rfl
    rw [List.foldl_cons, hnext _ hpixel, qoiChunks]
    unfold QoiEncoder.pixel
    simp only [hlast]
    split_ifs <;> simp

/-- No pixel takes more than four bytes. -/
theorem qoiChunks_length : ∀ (pxs : List QoiRgba) (prev : QoiRgba) (run : ℕ),
    (qoiChunks prev run pxs).length ≤ (if run > 0 then 1 else 0) + 4 * pxs.length
  | [], _, _ => Nat.zero_le _
  | px :: pxs, prev, run => by
    have hnext := qoiChunks_length pxs px 0
    have hdiff : (qoiDifference px prev).length ≤ 4 := by
      unfold qoiDifference
      dsimp only
      split_ifs <;> simp
    rw [if_neg (Nat.lt_irrefl 0), Nat.zero_add] at hnext
    rw [qoiChunks]
    simp only [List.length_cons]
    split
    · split
      · rw [List.length_cons]
        omega
      · have hlonger := qoiChunks_length pxs px (run + 1)
        rw [if_pos (Nat.succ_pos run)] at hlonger
        omega
    · simp only [List.length_append]
      split
      · rw [List.length_singleton]
        omega
      · rw [List.length_nil]
        omega

/-- What the encoder writes, the decoder reads, up to what follows. -/
theorem QoiDecoder.Ready.chunks {tail : List Byte} (htail : qoi_padding.length ≤ tail.length) :
    ∀ {pxs : List QoiRgba} {prev : QoiRgba} {run : ℕ} {d : QoiDecoder}, run < 62 →
      (pxs = [] → run = 0) → d.Ready prev (qoiChunks prev run pxs ++ tail) →
        ∃ d', d.Yields (List.replicate run prev.rgb ++ pxs.map QoiRgba.rgb) d' ∧ d'.rest = tail
  | [], prev, run, d, _, hnone, h => by
    obtain rfl := hnone rfl
    exact ⟨d, yields_nil d, h.2.2⟩
  | px :: pxs, prev, run, d, hlt, _, h => by
    have hroom : ∀ more : List Byte, qoi_padding.length ≤ (more ++ tail).length := fun more =>
      htail.trans (by rw [List.length_append]; exact Nat.le_add_left _ _)
    rw [qoiChunks] at h
    split at h
    · next hsame =>
        -- the pixel makes the run longer
        subst hsame
        have hlonger : List.replicate run px.rgb ++ (px :: pxs).map QoiRgba.rgb =
            List.replicate (run + 1) px.rgb ++ pxs.map QoiRgba.rgb := by
          rw [List.replicate_succ', List.append_assoc]
          rfl
        rw [hlonger]
        split at h
        · rw [List.cons_append] at h
          obtain ⟨d₁, hyields, hready⟩ := h.run (Nat.succ_pos run) hlt (hroom _)
          obtain ⟨d₂, hmore, hrest⟩ :=
            Ready.chunks htail (by decide) (fun _ => rfl) hready
          exact ⟨d₂, hyields.append hmore, hrest⟩
        · next hgoes =>
            obtain ⟨hnot, hnonempty⟩ := not_or.mp hgoes
            exact Ready.chunks htail (by omega) (fun h => absurd h hnonempty) h
    · -- the run is over, and the pixel is written
      have hrun : ∃ d₁, d.Yields (List.replicate run prev.rgb) d₁ ∧
          d₁.Ready prev (qoiDifference px prev ++ (qoiChunks px 0 pxs ++ tail)) := by
        rw [List.append_assoc, List.append_assoc] at h
        split at h
        · next hpos => exact h.run hpos hlt.le (by rw [← List.append_assoc]; exact hroom _)
        · next hzero =>
            obtain rfl : run = 0 := by omega
            exact ⟨d, yields_nil d, h⟩
      obtain ⟨d₁, hyields, hready⟩ := hrun
      obtain ⟨d₂, hpixel, hready⟩ := hready.difference (hroom _)
      obtain ⟨d₃, hmore, hrest⟩ := Ready.chunks htail (by decide) (fun _ => rfl) hready
      exact ⟨d₃, hyields.append (hpixel.append hmore), hrest⟩

/-! ## The whole image -/

/-- Where a pixel is, as long as the position fits. -/
theorem stridedpos_eq {stride : BitVec 32} {y x : ℕ} (h : y * stride.toNat + x < 2 ^ 32) :
    stridedpos stride y x = y * stride.toNat + x := by
  unfold stridedpos
  rw [BitVec.toNat_add, BitVec.toNat_mul, BitVec.toNat_ofNat, BitVec.toNat_ofNat, Nat.mod_mul_mod,
    ← Nat.add_mod, Nat.mod_eq_of_lt h]

/-- Red comes first. -/
def qoiColour (isrgb : Bool) (v : RawPixel 4) : QoiRgba :=
  if isrgb then .ofRaw v else (QoiRgba.ofRaw v).swap

/-- A loop whose steps do not fail. -/
theorem foldlM_ok {α σ : Type} {step : σ → α → Except QoiError σ} {f : σ → α → σ} :
    ∀ {l : List α} {s : σ}, (∀ a ∈ l, ∀ s, step s a = .ok (f s a)) →
      l.foldlM step s = .ok (l.foldl f s)
  | [], _, _ => rfl
  | a :: l, s, h => by
    obtain ⟨hfirst, hrest⟩ := List.forall_mem_cons.mp h
    rw [List.foldlM_cons, hfirst s]
    exact foldlM_ok hrest

variable {desc : QoiDesc} {pixels : ℕ → Option (RawPixel 4)} {stride : BitVec 32}
  {image : Block (RawPixel 4)}

/-- The pixels of the image are found in memory. -/
def InMemory (pixels : ℕ → Option (RawPixel 4)) (width height stride : ℕ)
    (image : Block (RawPixel 4)) : Prop :=
  ∀ y < height, ∀ x < width, pixels (y * stride + x) = some (image x y)

theorem qoi_encode_eq (haccepted : desc.Accepted) (isrgb : Bool)
    (hfit : (desc.height.toNat - 1) * stride.toNat + desc.width.toNat ≤ 2 ^ 32)
    (hmemory : InMemory pixels desc.width.toNat desc.height.toNat stride.toNat image) :
    qoi_encode_kasm pixels desc isrgb stride =
      .ok (qoiHeader desc ++
        qoiChunks .start 0 ((raster desc.width.toNat desc.height.toNat image).map
          (qoiColour isrgb)) ++ qoi_padding) := by
  have hread : ∀ y < desc.height.toNat, ∀ x < desc.width.toNat,
      qoiRead pixels isrgb (stridedpos stride y x) = .ok (qoiColour isrgb (image x y)) := by
    intro y hy x hx
    have hrow : y * stride.toNat ≤ (desc.height.toNat - 1) * stride.toNat :=
      Nat.mul_le_mul_right _ (by omega)
    rw [stridedpos_eq (by omega), qoiRead, hmemory y hy x hx]
    rfl
  let px_end := desc.width.toNat * desc.height.toNat - 1
  let e₀ : QoiEncoder := ⟨.start, 0, 0, qoiHeader desc⟩
  have hloop : (List.range desc.height.toNat).foldlM (fun e y =>
      (List.range desc.width.toNat).foldlM (fun e x => do
        let px ← qoiRead pixels isrgb (stridedpos stride y x)
        pure (QoiEncoder.pixel px_end e px)) e) e₀ =
      .ok (((raster desc.width.toNat desc.height.toNat image).map (qoiColour isrgb)).foldl
        (QoiEncoder.pixel px_end) e₀) := by
    rw [List.foldl_map, raster, List.foldl_flatMap]
    refine foldlM_ok fun y hy e => ?_
    rw [List.foldl_map]
    refine foldlM_ok fun x hx e => ?_
    rw [hread y (List.mem_range.mp hy) x (List.mem_range.mp hx)]
    rfl
  have hlength : e₀.px_pos + ((raster desc.width.toNat desc.height.toNat image).map
      (qoiColour isrgb)).length = px_end + 1 := by
    have hpos : 0 < desc.width.toNat * desc.height.toNat :=
      Nat.mul_pos (Nat.pos_of_ne_zero fun h => haccepted.1 (BitVec.eq_of_toNat_eq h))
        (Nat.pos_of_ne_zero fun h => haccepted.2.1 (BitVec.eq_of_toNat_eq h))
    rw [List.length_map, length_raster, Nat.zero_add, Nat.mul_comm, Nat.sub_add_cancel hpos]
  unfold qoi_encode_kasm
  rw [if_pos haccepted]
  dsimp only
  rw [hloop]
  exact congrArg (fun bytes => Except.ok (bytes ++ qoi_padding))
    (QoiEncoder.foldl_pixel _ e₀ hlength)

/-- What the decoder makes of the operations of an image. -/
theorem qoi_decode_eq (haccepted : desc.Accepted) {pxs : List QoiRgba}
    (hlength : pxs.length = desc.width.toNat * desc.height.toNat) :
    ∃ decoded, qoi_decode (qoiHeader desc ++ qoiChunks .start 0 pxs ++ qoi_padding) =
        some ⟨{ desc with channels := 3 }, decoded, qoi_padding⟩ ∧
      decoded.map QoiRgba.rgb = pxs.map QoiRgba.rgb := by
  let d : QoiDecoder := ⟨.start, fun _ => ⟨0, 0, 0, 0⟩, 0, qoiChunks .start 0 pxs ++ qoi_padding⟩
  obtain ⟨d', ⟨hpixels, rfl⟩, hrest⟩ := QoiDecoder.Ready.chunks (Nat.le_refl _)
    (by decide) (fun _ => rfl) (show d.Ready .start _ from ⟨rfl, rfl, rfl⟩)
  rw [List.replicate_zero, List.nil_append, List.length_map, hlength] at hpixels hrest
  refine ⟨_, ?_, hpixels⟩
  have haccepted' : ({ desc with channels := 3 } : QoiDesc).Accepted :=
    ⟨haccepted.1, haccepted.2.1, .inl rfl, haccepted.2.2.2⟩
  have hlong : ¬(qoiHeader desc ++ (qoiChunks .start 0 pxs ++ qoi_padding)).length <
      QOI_HEADER_SIZE + qoi_padding.length := by
    have hheader : (qoiHeader desc).length = QOI_HEADER_SIZE := rfl
    rw [List.length_append, List.length_append, hheader]
    omega
  rw [List.append_assoc]
  unfold qoi_decode
  simp only [qoiHeader, be32, List.cons_append, List.nil_append, append_be32] at hlong ⊢
  rw [if_neg (by rintro (h | h | h) <;> contradiction)]
  exact congrArg (fun rest => some (⟨_, _, rest⟩ : QoiImage)) hrest

/-- The output fits its memory. -/
theorem qoiMaxSize_lt (haccepted : desc.Accepted) : qoiMaxSize desc < 2 ^ 31 := by
  obtain ⟨-, -, -, -, hlimit⟩ := haccepted
  have hpixels : desc.width.toNat * desc.height.toNat ≤ QOI_PIXELS_MAX := by
    rw [Nat.mul_comm]
    exact (Nat.mul_le_mul_right _ hlimit.le).trans (Nat.div_mul_le_self _ _)
  unfold qoiMaxSize
  have hmax : QOI_PIXELS_MAX = 400000000 := rfl
  have hheader : QOI_HEADER_SIZE = 14 := rfl
  have hpadding : qoi_padding.length = 8 := rfl
  omega

theorem qoi_length_le {pxs : List QoiRgba}
    (hlength : pxs.length = desc.width.toNat * desc.height.toNat) :
    (qoiHeader desc ++ qoiChunks .start 0 pxs ++ qoi_padding).length ≤ qoiMaxSize desc := by
  have hchunks := qoiChunks_length pxs .start 0
  have hheader : (qoiHeader desc).length = QOI_HEADER_SIZE := rfl
  rw [if_neg (Nat.lt_irrefl 0), Nat.zero_add, hlength] at hchunks
  rw [List.length_append, List.length_append, hheader]
  unfold qoiMaxSize
  omega

theorem rgbx_888 : pfRGBX.is888 := by decide

theorem bgrx_888 : pfBGRX.is888 := by decide

/-- The encoder takes the bytes that the pixel format names. -/
theorem qoiColour_rgb {pf : PixelFormatOf .bpp32} (hpf : pfRGBX.equal pf ∨ pfBGRX.equal pf)
    (v : RawPixel PixelWidth.bpp32.bytes) : (qoiColour (pfRGBX.equal pf) v).rgb = pf.rgb v := by
  unfold qoiColour
  by_cases hrgb : pfRGBX.equal pf
  · rw [if_pos (decide_eq_true hrgb), ← PixelFormatOf.equal_rgb hrgb,
      PixelFormatOf.rgb_of_888 rgbx_888]
    rfl
  · rw [if_neg (by simpa using hrgb), ← PixelFormatOf.equal_rgb (hpf.resolve_left hrgb),
      PixelFormatOf.rgb_of_888 bgrx_888]
    rfl

/-- **QOI images come back**, with the colours of every pixel. -/
theorem qoi_round_trip (pf : PixelFormatOf .bpp32) (hpf : pfRGBX.equal pf ∨ pfBGRX.equal pf)
    (width height stride : BitVec 32) (hwidth : width ≠ 0) (hheight : height ≠ 0)
    (hlimit : height.toNat < QOI_PIXELS_MAX / width.toNat)
    (hfit : (height.toNat - 1) * stride.toNat + width.toNat ≤ 2 ^ 32)
    (pixels : ℕ → Option (RawPixel 4)) (image : Block (RawPixel 4))
    (hmemory : InMemory pixels width.toNat height.toNat stride.toNat image) :
    ∃ out decoded, qoiCompressOnly pf pixels width height stride = .ok out ∧
      (out.length ≤ qoiMaxSize ⟨width, height, 4, 1⟩ ∧
        qoiMaxSize ⟨width, height, 4, 1⟩ < 2 ^ 31) ∧
      qoi_decode out = some ⟨⟨width, height, 3, 1⟩, decoded, qoi_padding⟩ ∧
      decoded.map QoiRgba.rgb = (raster width.toNat height.toNat image).map pf.rgb := by
  let desc : QoiDesc := ⟨width, height, 4, 1⟩
  let pxs := (raster width.toNat height.toNat image).map (qoiColour (pfRGBX.equal pf))
  have haccepted : desc.Accepted := ⟨hwidth, hheight, .inr rfl, .inr rfl, hlimit⟩
  have hlength : pxs.length = desc.width.toNat * desc.height.toNat := by
    rw [List.length_map, length_raster, Nat.mul_comm]
  obtain ⟨decoded, hdecode, hcolours⟩ := qoi_decode_eq haccepted hlength
  refine ⟨_, decoded, qoi_encode_eq haccepted _ hfit hmemory,
    ⟨qoi_length_le hlength, qoiMaxSize_lt haccepted⟩, hdecode, ?_⟩
  rw [hcolours, List.map_map]
  exact List.map_congr_left fun v _ => qoiColour_rgb hpf v

/-! ## Small images -/

def redPixel : RawPixel 4 := ⟨[200, 10, 20, 0], rfl⟩

def bluePixel : RawPixel 4 := ⟨[20, 10, 200, 0], rfl⟩

/-- Another unused byte. -/
def bluePixel' : RawPixel 4 := ⟨[20, 10, 200, 9], rfl⟩

/-- Two rows of one pixel, with a gap between them. -/
theorem qoi_round_trip_column :
    ∃ out decoded,
      qoiCompressOnly pfRGBX
          (fun i => if i = 0 then some bluePixel else if i = 5 then some bluePixel' else none)
          1 2 5 = .ok out ∧
      (out.length ≤ qoiMaxSize ⟨1, 2, 4, 1⟩ ∧ qoiMaxSize ⟨1, 2, 4, 1⟩ < 2 ^ 31) ∧
      qoi_decode out = some ⟨⟨1, 2, 3, 1⟩, decoded, qoi_padding⟩ ∧
      decoded.map QoiRgba.rgb =
        (raster 1 2 fun _ y => if y = 0 then bluePixel else bluePixel').map pfRGBX.rgb := by
  refine qoi_round_trip pfRGBX (.inl (PixelFormatOf.equal_refl _)) 1 2 5 (by decide) (by decide)
    (by decide) (by decide) _ _ fun y hy x hx => ?_
  obtain rfl : x = 0 := Nat.lt_one_iff.mp hx
  have hy' : y < 2 := hy
  match y, hy' with
  | 0, _ => rfl
  | 1, _ => rfl

/-- A buffer whose rows are 2^30 pixels apart. -/
def farRows : ℕ → Option (RawPixel 4) := fun i =>
  if i = 2 ^ 32 then some redPixel else some bluePixel

def farImage : Block (RawPixel 4) := fun _ y => if y = 4 then redPixel else bluePixel

/-- The position of the fifth row is taken for the one of the first. -/
theorem qoi_far_row :
    InMemory farRows 1 5 0x40000000 farImage ∧
      ¬∃ out decoded, qoiCompressOnly pfRGBX farRows 1 5 0x40000000 = .ok out ∧
        qoi_decode out = some ⟨⟨1, 5, 3, 1⟩, decoded, qoi_padding⟩ ∧
        decoded.map QoiRgba.rgb = (raster 1 5 farImage).map pfRGBX.rgb := by
  constructor
  · intro y hy x hx
    obtain rfl : x = 0 := Nat.lt_one_iff.mp hx
    have hposition : y * 0x40000000 + 0 = 2 ^ 32 ↔ y = 4 := by omega
    unfold farRows farImage
    simp only [hposition]
    split <;> rfl
  · rintro ⟨out, decoded, hout, hdecode, hcolours⟩
    obtain rfl : [0x71, 0x6f, 0x69, 0x66, 0, 0, 0, 1, 0, 0, 0, 5, 3, 1, 0xfe, 20, 10, 200, 0xc3,
        0, 0, 0, 0, 0, 0, 0, 1] = out := Except.ok.inj hout
    have hpixels := congrArg (Option.map QoiImage.pixels) hdecode
    obtain rfl : List.replicate 5 ⟨20, 10, 200, 255⟩ = decoded := Option.some.inj hpixels
    exact absurd hcolours (by decide)

end KasmVNC.Rfb
