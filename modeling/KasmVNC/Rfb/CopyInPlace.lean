import KasmVNC.Rfb.DecoderFootprint
import KasmVNC.Rfb.FrameSound
import KasmVNC.Rfb.WriterReader
import Mathlib.Data.List.SplitBy

/-!
# Copies are done in place

A region is copied rectangle by rectangle and each rectangle line by line, both within the
buffer that is read. `get_rects` lists the rectangles, and `copyRect` the lines, in an order
in which nothing is read after it was overwritten, so that the framebuffer of the client and
the copy of the comparer end as if all pixels had moved at once.
-/

namespace KasmVNC.Rfb

open KasmVNC.Lib KasmVNC.Lib.Reader CMsgWriter

/-! ## The order of `get_rects` -/

namespace Region

/-- `xrgn->rects`: the bands from the top to the bottom, each from the left to the right -/
def boxes (r : Region) : List Rect :=
  r.toBands.flatMap fun b => b.row.map fun s => ⟨(s.1, b.top), (s.2, b.bottom)⟩

/-- The loop of `get_rects`. It takes one band after another in the direction of `yInc`, and
starts at the far end of a band if `xInc` goes the other way. -/
def get_rects (boxes : List Rect) (left2right topdown : Bool) : List Rect :=
  ((if topdown then boxes else boxes.reverse).splitBy fun r s => r.tl.2 = s.tl.2).flatMap
    fun band => if left2right = topdown then band else band.reverse

/-- Bands are told apart by their tops. -/
theorem splitBy_bands {bs : List Band} (rects : Band → List Rect)
    (hne : ∀ b ∈ bs, rects b ≠ []) (htop : ∀ b ∈ bs, ∀ r ∈ rects b, r.tl.2 = b.top)
    (hdiff : bs.Pairwise fun b c => b.top ≠ c.top) :
    (bs.flatMap rects).splitBy (fun r s => r.tl.2 = s.tl.2) = bs.map rects := by
  rw [List.flatMap_def]
  refine List.splitBy_flatten (fun hmem => ?_) (fun band hband => ?_) ?_
  · obtain ⟨b, hb, hempty⟩ := List.mem_map.mp hmem
    exact hne b hb hempty
  · obtain ⟨b, hb, rfl⟩ := List.mem_map.mp hband
    refine (List.pairwise_of_forall_mem_list fun r hr s hs => ?_).isChain
    exact decide_eq_true ((htop b hb r hr).trans (htop b hb s hs).symm)
  · refine (List.pairwise_map.mpr (hdiff.imp_of_mem fun {b c} hb hc hbc => ?_)).isChain
    refine ⟨hne b hb, hne c hc, decide_eq_false ?_⟩
    rw [htop b hb _ (List.getLast_mem _), htop c hc _ (List.head_mem _)]
    exact hbc

theorem row_ne_nil {r : Region} {b : Band} (hb : b ∈ r.toBands) : b.row ≠ [] := by
  obtain ⟨⟨q, hq, hy⟩, hrow⟩ := mem_toBands.mp ⟨b, hb, le_rfl, bands_nonempty hb, rfl⟩
  obtain ⟨s, hs, -⟩ := mem_row.mpr hq
  rw [← hrow, ← hy]
  exact List.ne_nil_of_mem hs

/-- The loop goes through bands and spans as `getRects` does. -/
theorem get_rects_boxes (r : Region) (left2right topdown : Bool) :
    get_rects r.boxes left2right topdown = r.getRects left2right topdown := by
  have hdiff : r.toBands.Pairwise fun b c => b.top ≠ c.top := by
    refine (bands_sorted (listing_sorted ..)).imp_of_mem fun {b c} hb _ hbc => ?_
    have := bands_nonempty hb
    omega
  have htop : ∀ b : Band, ∀ s ∈ b.row.map (fun s => (⟨(s.1, b.top), (s.2, b.bottom)⟩ : Rect)),
      s.tl.2 = b.top := by
    intro b s hs
    obtain ⟨s, -, rfl⟩ := List.mem_map.mp hs
    rfl
  unfold get_rects getRects boxes
  cases topdown with
  | true =>
    rw [if_pos rfl, if_pos rfl, splitBy_bands _ (fun b hb => ?_) (fun b _ => htop b) hdiff,
      List.flatMap_map]
    · cases left2right <;> simp
    · exact mt List.map_eq_nil_iff.mp (row_ne_nil hb)
  | false =>
    rw [if_neg Bool.false_ne_true, if_neg Bool.false_ne_true, List.reverse_flatMap,
      splitBy_bands (List.reverse ∘ _) (fun b hb => ?_) (fun b _ s hs => ?_)
        (List.pairwise_reverse.mpr (hdiff.imp Ne.symm)), List.flatMap_map]
    · cases left2right <;> simp
    · exact List.reverse_ne_nil_iff.mpr
        (mt List.map_eq_nil_iff.mp (row_ne_nil (List.mem_reverse.mp hb)))
    · exact htop b s (List.mem_reverse.mp hs)

end Region

/-! ## Lines in memory -/

section Memory

variable {C : Type*} (stride : ℤ)

/-- Where the buffer has a pixel. -/
def address (p : Point) : ℤ := p.2 * stride + p.1

/-- The `n` places from `start` on. -/
def line (start : ℤ) (n : ℕ) : Finset ℤ := (Finset.range n).image fun i : ℕ => start + i

theorem mem_line {start a : ℤ} {n : ℕ} : a ∈ line start n ↔ start ≤ a ∧ a < start + n := by
  rw [line, Finset.mem_image]
  constructor
  · rintro ⟨i, hi, rfl⟩
    have := Finset.mem_range.mp hi
    omega
  · intro h
    exact ⟨(a - start).toNat, Finset.mem_range.mpr (by omega), by omega⟩

def memmove (dst src : ℤ) (n : ℕ) (mem : ℤ → C) : ℤ → C :=
  move ⟨line dst n, dst - src⟩ mem

/-- It is not defined for areas that overlap. -/
def memcpy (dst src : ℤ) (n : ℕ) (mem : ℤ → C) : Option (ℤ → C) :=
  if dst < src + n ∧ src < dst + n then none else some (memmove dst src n mem)

/-- The loop over the lines; both pointers go on by `step`. -/
def copyLines (copy : ℤ → ℤ → (ℤ → C) → Option (ℤ → C)) (step : ℤ) :
    ℕ → ℤ → ℤ → (ℤ → C) → Option (ℤ → C)
  | 0, _, _, mem => some mem
  | h + 1, dst, src, mem => do
      let mem ← copy dst src mem
      copyLines copy step h (dst + step) (src + step) mem

/-- `ModifiablePixelBuffer::copyRect` on the memory of the buffer, in pixels. `none` is
undefined behaviour. -/
def copyRectMemory (fbRect rect : Rect) (delta : Point) (mem : ℤ → C) :
    Except CopyRectError (Option (ℤ → C)) :=
  let srect := rect.translate (-delta)
  let w := rect.width.toNat
  let h := rect.height.toNat
  let dstData := address stride rect.tl
  let srcData := address stride srect.tl
  if ¬ rect.enclosedBy fbRect then .error (.destination rect fbRect)
  else if ¬ srect.enclosedBy fbRect then .error (.source srect fbRect)
  else .ok <|
    if delta.2 = 0 then
      -- Possible overlap.
      copyLines (fun dst src mem => some (memmove dst src w mem)) stride h dstData srcData mem
    else if delta.2 < 0 then
      copyLines (fun dst src mem => memcpy dst src w mem) stride h dstData srcData mem
    else
      copyLines (fun dst src mem => memcpy dst src w mem) (-stride) h
        (dstData + (h - 1) * stride) (srcData + (h - 1) * stride) mem

variable {stride}

theorem copyLines_eq {copy : ℤ → ℤ → (ℤ → C) → Option (ℤ → C)} {step delta : ℤ} {n : ℕ}
    (hcopy : ∀ dst mem, copy dst (dst - delta) mem = some (memmove dst (dst - delta) n mem)) :
    ∀ (h : ℕ) (dst : ℤ) (mem : ℤ → C), copyLines copy step h dst (dst - delta) mem =
      some (moves ((List.range h).map fun i : ℕ =>
        ⟨line (dst + i * step) n, delta⟩) mem) := by
  intro h
  induction h with
  | zero => exact fun dst mem => rfl
  | succ h ih =>
    intro dst mem
    have hnext : dst - delta + step = dst + step - delta := by ring
    have hline : ∀ i : ℕ, dst + step + i * step = dst + (i + 1 : ℕ) * step := by
      intro i
      push_cast
      ring
    rw [copyLines, hcopy, Option.bind_eq_bind, Option.bind_some, hnext, ih,
      List.range_succ_eq_map, List.map_cons, List.map_map, moves_cons]
    simp only [hline, Nat.cast_zero, zero_mul, add_zero]
    rw [memmove, sub_sub_cancel]
    rfl

/-- Two pixels with less than a line between their columns have different places. -/
theorem address_inj {p q : Point} (hleft : p.1 - q.1 < stride) (hright : q.1 - p.1 < stride)
    (h : address stride p = address stride q) : p = q := by
  have hdiff : (p.2 - q.2) * stride = q.1 - p.1 := by
    unfold address at h
    rw [sub_mul]
    omega
  have hcolumn : q.1 - p.1 = 0 :=
    Int.eq_zero_of_abs_lt_dvd (Dvd.intro_left _ hdiff) (abs_lt.mpr ⟨by omega, hright⟩)
  have hrow : p.2 - q.2 = 0 := by
    rw [hcolumn] at hdiff
    exact (mul_eq_zero.mp hdiff).resolve_right (by omega)
  exact Prod.ext (by omega) (by omega)

/-- How far the copy goes in memory. -/
def offset (stride : ℤ) (delta : Point) : ℤ := delta.2 * stride + delta.1

theorem address_sub (p delta : Point) :
    address stride (p - delta) = address stride p - offset stride delta := by
  simp only [address, offset, Prod.fst_sub, Prod.snd_sub]
  ring

/-- A rectangle with its source in the buffer. -/
structure Copyable (fbRect rect : Rect) (delta : Point) : Prop where
  dest : rect.enclosedBy fbRect
  source : (rect.translate (-delta)).enclosedBy fbRect
  width : rect.tl.1 ≤ rect.br.1
  height : rect.tl.2 ≤ rect.br.2

variable {fbRect rect : Rect} {delta : Point}

/-- The line of a rectangle, in memory. -/
def memoryLine (stride : ℤ) (rect : Rect) (delta : Point) (y : ℤ) : Move ℤ :=
  ⟨line (address stride (rect.tl.1, y)) rect.width.toNat, offset stride delta⟩

theorem mem_memoryLine (hwidth : rect.tl.1 ≤ rect.br.1) {y a : ℤ} :
    a ∈ (memoryLine stride rect delta y).dest ↔
      ∃ x, (rect.tl.1 ≤ x ∧ x < rect.br.1) ∧ address stride (x, y) = a := by
  rw [memoryLine, mem_line, Rect.width, Int.toNat_of_nonneg (by omega)]
  show y * stride + rect.tl.1 ≤ a ∧ a < y * stride + rect.tl.1 + (rect.br.1 - rect.tl.1) ↔
    ∃ x, (rect.tl.1 ≤ x ∧ x < rect.br.1) ∧ y * stride + x = a
  constructor
  · exact fun h => ⟨a - y * stride, by omega, by omega⟩
  · rintro ⟨x, hx, rfl⟩
    omega

/-- The lines of a rectangle in an order in which none is overwritten before it is read. -/
theorem moves_memoryLines (h : Copyable fbRect rect delta) (hstride : fbRect.width ≤ stride)
    {rows : List ℤ} (hrows : ∀ y, y ∈ rows ↔ rect.tl.2 ≤ y ∧ y < rect.br.2)
    (horder : rows.Pairwise fun y z => z - delta.2 ≠ y) (mem : ℤ → C) :
    moves (rows.map (memoryLine stride rect delta)) mem =
      move ⟨(Region.ofRect rect).image (address stride), offset stride delta⟩ mem := by
  obtain ⟨⟨hleft, -, hright, -⟩, ⟨hleft', -, hright', -⟩, hwidth, -⟩ := h
  simp only [Rect.translate, Prod.fst_add, Prod.fst_neg, Rect.width] at hleft' hright' hstride
  refine Clean.moves_eq (List.pairwise_map.mpr (horder.imp fun {y z} hyz a ha hread => ?_))
    (fun m hm => ?_) (fun a => ?_) mem
  · obtain ⟨x, hx, rfl⟩ := (mem_memoryLine hwidth).mp ha
    obtain ⟨x', hx', hsame⟩ := (mem_memoryLine hwidth).mp hread
    have hsource : address stride (x, z) - offset stride delta =
        address stride (x - delta.1, z - delta.2) := (address_sub (x, z) delta).symm
    have hpoint := address_inj (by dsimp only; omega) (by dsimp only; omega)
      (hsame.trans hsource)
    exact hyz (congrArg Prod.snd hpoint).symm
  · obtain ⟨y, -, rfl⟩ := List.mem_map.mp hm
    rfl
  · constructor
    · intro ha
      obtain ⟨p, hp, rfl⟩ := Finset.mem_image.mp ha
      obtain ⟨hx, hy⟩ := Region.mem_ofRect.mp hp
      exact ⟨_, List.mem_map_of_mem ((hrows p.2).mpr hy), (mem_memoryLine hwidth).mpr
        ⟨p.1, hx, rfl⟩⟩
    · rintro ⟨m, hm, ha⟩
      obtain ⟨y, hy, rfl⟩ := List.mem_map.mp hm
      obtain ⟨x, hx, rfl⟩ := (mem_memoryLine hwidth).mp ha
      exact Finset.mem_image_of_mem _ (Region.mem_ofRect.mpr ⟨hx, (hrows y).mp hy⟩)

/-- Lines on different rows do not overlap. -/
theorem memcpy_ok (h : Copyable fbRect rect delta) (hstride : fbRect.width ≤ stride)
    (hrow : delta.2 ≠ 0) (dst : ℤ) (mem : ℤ → C) :
    memcpy dst (dst - offset stride delta) rect.width.toNat mem =
      some (memmove dst (dst - offset stride delta) rect.width.toNat mem) := by
  obtain ⟨⟨hleft, -, hright, -⟩, ⟨hleft', -, hright', -⟩, hwidth, -⟩ := h
  simp only [Rect.translate, Prod.fst_add, Prod.fst_neg, Rect.width] at *
  have hfar : stride ≤ |delta.2 * stride| := by
    rw [Int.abs_eq_natAbs, Int.natAbs_mul]
    have hone : 1 ≤ delta.2.natAbs := Int.natAbs_pos.mpr hrow
    have := Nat.le_mul_of_pos_left stride.natAbs hone
    omega
  refine if_neg ?_
  rw [offset, Int.toNat_of_nonneg (by omega)]
  rcases le_abs.mp hfar with hfar | hfar <;> omega

/-- Lines one below the other, or one above the other. -/
theorem copyLines_rows (h : Copyable fbRect rect delta) (hstride : fbRect.width ≤ stride)
    {copy : ℤ → ℤ → (ℤ → C) → Option (ℤ → C)}
    (hcopy : ∀ dst mem, copy dst (dst - offset stride delta) mem =
      some (memmove dst (dst - offset stride delta) rect.width.toNat mem))
    {row : ℕ → ℤ} {step first : ℤ} (hstep : ∀ i : ℕ,
      first + i * step = address stride (rect.tl.1, row i))
    (hrows : ∀ y, (∃ i < rect.height.toNat, row i = y) ↔ rect.tl.2 ≤ y ∧ y < rect.br.2)
    (horder : ∀ i j, i < j → row j - delta.2 ≠ row i) (mem : ℤ → C) :
    copyLines copy step rect.height.toNat first (first - offset stride delta) mem =
      some (move ⟨(Region.ofRect rect).image (address stride), offset stride delta⟩ mem) := by
  have hlines : ((List.range rect.height.toNat).map fun i : ℕ =>
      (⟨line (first + i * step) rect.width.toNat, offset stride delta⟩ : Move ℤ)) =
      ((List.range rect.height.toNat).map row).map (memoryLine stride rect delta) := by
    rw [List.map_map]
    refine List.map_congr_left fun i _ => ?_
    rw [hstep]
    rfl
  have hsorted : ((List.range rect.height.toNat).map row).Pairwise fun y z => z - delta.2 ≠ y :=
    List.pairwise_map.mpr (List.pairwise_lt_range.imp fun {i j} hij => horder i j hij)
  rw [copyLines_eq hcopy, hlines, moves_memoryLines h hstride (fun y => ?_) hsorted mem]
  rw [List.mem_map, ← hrows]
  simp only [List.mem_range]

/-- **A rectangle is copied in place.** No line is overwritten before it is read, and
`memcpy` is never given areas that overlap. -/
theorem copyRectMemory_eq (h : Copyable fbRect rect delta) (hstride : fbRect.width ≤ stride)
    (mem : ℤ → C) : copyRectMemory stride fbRect rect delta mem =
      .ok (some (move ⟨(Region.ofRect rect).image (address stride), offset stride delta⟩ mem)) := by
  have hsource : address stride (rect.translate (-delta)).tl =
      address stride rect.tl - offset stride delta := by
    rw [← address_sub, sub_eq_add_neg]
    rfl
  have hheight : (rect.height.toNat : ℤ) = rect.br.2 - rect.tl.2 :=
    Int.toNat_of_nonneg (by have := h.height; unfold Rect.height; omega)
  have hdown : ∀ i : ℕ, address stride rect.tl + i * stride =
      address stride (rect.tl.1, rect.tl.2 + i) := by
    intro i
    unfold address
    ring
  have hup : ∀ i : ℕ, address stride rect.tl + (rect.height.toNat - 1) * stride + i * -stride =
      address stride (rect.tl.1, rect.br.2 - 1 - i) := by
    intro i
    rw [hheight]
    unfold address
    ring
  have hall : ∀ y, (∃ i < rect.height.toNat, rect.tl.2 + (i : ℤ) = y) ↔
      rect.tl.2 ≤ y ∧ y < rect.br.2 :=
    fun y => ⟨by omega, fun hy => ⟨(y - rect.tl.2).toNat, by omega, by omega⟩⟩
  have hall' : ∀ y, (∃ i < rect.height.toNat, rect.br.2 - 1 - (i : ℤ) = y) ↔
      rect.tl.2 ≤ y ∧ y < rect.br.2 :=
    fun y => ⟨by omega, fun hy => ⟨(rect.br.2 - 1 - y).toNat, by omega, by omega⟩⟩
  unfold copyRectMemory
  dsimp only
  rw [if_neg (not_not.mpr h.dest), if_neg (not_not.mpr h.source), hsource]
  congr 1
  split
  case isTrue hflat =>
    exact copyLines_rows h hstride (fun _ _ => rfl) hdown hall (fun i j _ => by omega) mem
  case isFalse hrow =>
    have hcopy := memcpy_ok (C := C) h hstride hrow
    split
    · exact copyLines_rows h hstride hcopy hdown hall (fun i j _ => by omega) mem
    · have hfirst : address stride rect.tl - offset stride delta +
          (rect.height.toNat - 1) * stride =
          address stride rect.tl + (rect.height.toNat - 1) * stride - offset stride delta := by
        ring
      rw [hfirst]
      exact copyLines_rows h hstride hcopy hup hall' (fun i j _ => by omega) mem

/-- What the buffer shows is copied as `copyRect` says. -/
theorem move_address (h : Copyable fbRect rect delta) (hstride : fbRect.width ≤ stride)
    (mem : ℤ → C) {p : Point} (hp : p ∈ Region.ofRect fbRect) :
    move ⟨(Region.ofRect rect).image (address stride), offset stride delta⟩ mem
        (address stride p) =
      move ⟨Region.ofRect rect, delta⟩ (fun q => mem (address stride q)) p := by
  obtain ⟨⟨hleft, -, hright, -⟩, -⟩ := h
  obtain ⟨hx, -⟩ := Region.mem_ofRect.mp hp
  rw [Rect.width] at hstride
  have hmem : address stride p ∈ (Region.ofRect rect).image (address stride) ↔
      p ∈ Region.ofRect rect := by
    refine ⟨fun hin => ?_, Finset.mem_image_of_mem _⟩
    obtain ⟨q, hq, hsame⟩ := Finset.mem_image.mp hin
    obtain ⟨hqx, -⟩ := Region.mem_ofRect.mp hq
    obtain rfl := address_inj (by omega) (by omega) hsame
    exact hq
  show mem (Move.origin _ _) = mem (address stride (Move.origin _ p))
  by_cases hin : p ∈ Region.ofRect rect
  · rw [Move.origin_of_mem (hmem.mpr hin), Move.origin_of_mem hin, address_sub]
  · rw [Move.origin_of_notMem (mt hmem.mp hin), Move.origin_of_notMem hin]

end Memory

/-! ## Regions -/

variable {C : Type*} {fbRect : Rect} {R : Region} {delta : Point}

/-- The pixels of a copy and their sources are in the framebuffer. -/
def CopyFits (fbRect : Rect) (R : Region) (delta : Point) : Prop :=
  ∀ p ∈ R, p ∈ Region.ofRect fbRect ∧ p - delta ∈ Region.ofRect fbRect

theorem CopyFits.copyable (h : CopyFits fbRect R delta) {left2right topdown : Bool} {r : Rect}
    (hr : r ∈ R.getRects left2right topdown) : Copyable fbRect r delta := by
  obtain ⟨hwidth, hheight⟩ := Region.getRects_nonempty hr
  have hcorner : ∀ {x y : ℤ}, r.tl.1 ≤ x ∧ x < r.br.1 → r.tl.2 ≤ y ∧ y < r.br.2 →
      (x, y) ∈ Region.ofRect fbRect ∧ (x, y) - delta ∈ Region.ofRect fbRect := fun hx hy =>
    h _ (Region.mem_getRects.mp ⟨r, hr, Region.mem_ofRect.mpr ⟨hx, hy⟩⟩)
  obtain ⟨hfirst, hfirst'⟩ := hcorner (x := r.tl.1) (y := r.tl.2) (by omega) (by omega)
  obtain ⟨hlast, hlast'⟩ := hcorner (x := r.br.1 - 1) (y := r.br.2 - 1) (by omega) (by omega)
  rw [Region.mem_ofRect] at hfirst hfirst' hlast hlast'
  simp only [Prod.fst_sub, Prod.snd_sub] at hfirst' hlast'
  refine ⟨⟨by omega, by omega, by omega, by omega⟩, ?_, hwidth.le, hheight.le⟩
  simp only [Rect.enclosedBy, Rect.translate, Prod.fst_add, Prod.snd_add, Prod.fst_neg,
    Prod.snd_neg]
  omega

/-- One rectangle after another, on any state that has the framebuffer in it. -/
theorem foldlM_copyRect {σ E : Type*} {copy : σ → Rect → Except E σ}
    (set : (Point → C) → σ) {rects : List Rect}
    (hcopy : ∀ r ∈ rects, ∀ f, copy (set f) r = .ok (set (move ⟨Region.ofRect r, delta⟩ f))) :
    ∀ f, rects.foldlM copy (set f) =
      .ok (set (moves (rects.map fun r => ⟨Region.ofRect r, delta⟩) f)) := by
  induction rects with
  | nil => exact fun f => rfl
  | cons r rects ih =>
    intro f
    rw [List.foldlM_cons, hcopy r List.mem_cons_self, List.map_cons, moves_cons]
    exact ih (fun r' hr' => hcopy r' (List.mem_cons_of_mem r hr')) _

/-- The comparer's copy of the framebuffer. -/
theorem CopyFits.applyCopied {dir : ScrollDirection} {c : ComparingUpdateTracker C dir}
    {fb : PixelBuffer C} (h : CopyFits fb.getRect c.tracker.copied c.tracker.copyDelta) :
    c.applyCopied fb = .ok (move c.tracker.copy c.oldFb) := by
  refine (foldlM_copyRect id (fun r hr f => ?_) c.oldFb).trans
    (congrArg Except.ok (Region.moves_rectMoves c.tracker.copied c.tracker.copyDelta c.oldFb))
  have hr := h.copyable hr
  exact copyRect_of_enclosed hr.dest hr.source f

/-! ## What clients do -/

section Client

variable {width : PixelWidth}

/-- The client takes the CopyRect rectangles of an update from the wire. -/
def receiveCopies (d : DecodeParams width) :
    List WriterOut → DecodeState d → Except String (DecodeState d)
  | [], s => .ok s
  | .rect x y w h encoding :: .copySource srcX srcY :: outs, s =>
    if encoding = encodingCopyRect then do
      let decoding : Decoding d := ⟨be16 (u16 srcX) ++ be16 (u16 srcY), s⟩
      let res ← decoding.decodeRect ⟨u16 x, u16 y, u16 w, u16 h, .copyRect⟩
      receiveCopies d outs res.state
    else .error "Unknown encoding"
  | _, _ => .error "Unknown encoding"

/-- What `writeCopyRect` puts on the wire. -/
def copyMessages (delta : Point) (r : Rect) : List WriterOut :=
  [.rect r.tl.1 r.tl.2 r.width r.height encodingCopyRect,
    .copySource (r.tl.1 - delta.1) (r.tl.2 - delta.2)]

/-- The stream that rectangles are written to. -/
def SMsgWriter.pixelStream (w : SMsgWriter) (cp : ConnParams) : List WriterOut :=
  if cp.supportsUdp then w.udps else w.os

theorem pixelStream_writeCopyRect {cp : ConnParams} {r : Rect} {w w' : SMsgWriter}
    (h : w.writeCopyRect cp r (r.tl.1 - delta.1) (r.tl.2 - delta.2) = .ok w') :
    w'.pixelStream cp = w.pixelStream cp ++ copyMessages delta r := by
  obtain ⟨w₁, hstart, h⟩ := of_bind_ok h
  obtain ⟨w₂, hcount, hstart⟩ := of_bind_ok hstart
  have hsame : w₂.pixelStream cp = w.pixelStream cp := by
    unfold SMsgWriter.countRect at hcount
    split at hcount
    · cases hcount
    · obtain rfl := Except.ok.inj hcount
      rfl
  obtain rfl := Except.ok.inj hstart
  obtain rfl := Except.ok.inj h
  rw [← hsame]
  unfold SMsgWriter.pixelStream SMsgWriter.emit copyMessages
  split <;> exact List.append_assoc _ _ _

theorem pixelStream_writeCopyRects {ctx : EncodeContext} {w w' : SMsgWriter}
    (h : EncodeManager.writeCopyRects ctx R delta w = .ok w') :
    w'.pixelStream ctx.cp = w.pixelStream ctx.cp ++
      (R.getRects (delta.1 ≤ 0) (delta.2 ≤ 0)).flatMap (copyMessages delta) := by
  unfold EncodeManager.writeCopyRects at h
  generalize R.getRects (delta.1 ≤ 0) (delta.2 ≤ 0) = rects at h
  induction rects generalizing w with
  | nil =>
    obtain rfl := Except.ok.inj h
    exact (List.append_nil _).symm
  | cons r rects ih =>
    rw [List.foldlM_cons] at h
    obtain ⟨w₁, hfirst, hrest⟩ := of_bind_ok h
    rw [ih hrest, pixelStream_writeCopyRect hfirst, List.flatMap_cons, List.append_assoc]

variable {d : DecodeParams width}

theorem Copyable.fits {r : Rect} (h : Copyable d.fbRect r delta) :
    FitsRect r ∧ FitsU16 (r.tl.1 - delta.1) ∧ FitsU16 (r.tl.2 - delta.2) := by
  obtain ⟨⟨hleft, htop, hright, hbottom⟩, ⟨hleft', htop', hright', hbottom'⟩, hwidth, hheight⟩ := h
  have hw := d.fbWidth.isLt
  have hh := d.fbHeight.isLt
  simp only [Rect.translate, Prod.fst_add, Prod.snd_add, Prod.fst_neg, Prod.snd_neg,
    DecodeParams.fbRect] at *
  simp only [FitsRect, FitsU16, Rect.width, Rect.height]
  omega

/-- One CopyRect rectangle is decoded to the copy that the server has written. -/
theorem decodeRect_copy {r : Rect} (h : Copyable d.fbRect r delta) (s : DecodeState d) :
    Decoding.decodeRect ⟨be16 (u16 (r.tl.1 - delta.1)) ++ be16 (u16 (r.tl.2 - delta.2)), s⟩
        ⟨u16 r.tl.1, u16 r.tl.2, u16 r.width, u16 r.height, .copyRect⟩ =
      .ok ⟨[], { s with frame := move ⟨Region.ofRect r, delta⟩ s.frame }⟩ := by
  obtain ⟨hfits, hx, hy⟩ := h.fits
  obtain ⟨bytes, hbytes⟩ : ∃ bytes,
      bytes = be16 (u16 (r.tl.1 - delta.1)) ++ be16 (u16 (r.tl.2 - delta.2)) := ⟨_, rfl⟩
  have hrect : RectHeader.rect ⟨u16 r.tl.1, u16 r.tl.2, u16 r.width, u16 r.height, .copyRect⟩ = r :=
    wireRect_eq hfits
  have hcheck : checkRect d r = .ok () :=
    if_neg (not_or.mpr ⟨not_lt.mpr h.dest.2.2.1, not_lt.mpr h.dest.2.2.2⟩)
  have hread : readEntry d ⟨u16 r.tl.1, u16 r.tl.2, u16 r.width, u16 r.height, .copyRect⟩ bytes =
      .ok (⟨.waiting, r, .copyRect, bytes⟩, []) := by
    have hall : (readBytes 4 : Reader Empty _) ⟨bytes, []⟩ = .ok (bytes, ⟨[], []⟩) := by
      rw [hbytes]
      rfl
    rw [readEntry, hrect]
    show Except.map _ (readBytes 4 ⟨bytes, []⟩) = _
    rw [hall]
    rfl
  have hsource : (copyRectSource : Reader Empty Point) ⟨bytes, []⟩ =
      .ok (r.tl - delta, ⟨[], []⟩) := by
    have hreads : Reads (copyRectSource : Reader Empty Point) bytes (r.tl - delta) := by
      rw [hbytes]
      refine (reads_u16 _).read ((reads_u16 _).last ?_)
      rw [toNat_u16 hx, toNat_u16 hy]
      rfl
    have hend := hreads [] []
    rwa [List.append_nil] at hend
  have hcopy : copyRect d.fbRect r (r.tl - (r.tl - delta)) s.frame =
      .ok (move ⟨Region.ofRect r, delta⟩ s.frame) := by
    rw [sub_sub_cancel]
    exact copyRect_of_enclosed h.dest h.source s.frame
  have hdecode : QueueEntry.decode d ⟨.waiting, r, .copyRect, bytes⟩ s =
      .ok { s with frame := move ⟨Region.ofRect r, delta⟩ s.frame } :=
    decode_ok (copyRectDecode_of_source hsource hcopy) fun frame => { s with frame := frame }
  rw [← hbytes, Decoding.decodeRect, hrect, bind_ok hcheck, bind_ok hread]
  exact bind_ok hdecode _

theorem receiveCopies_eq {rects : List Rect} (h : ∀ r ∈ rects, Copyable d.fbRect r delta)
    (s : DecodeState d) : receiveCopies d (rects.flatMap (copyMessages delta)) s =
      .ok { s with frame := moves (rects.map fun r => ⟨Region.ofRect r, delta⟩) s.frame } := by
  induction rects generalizing s with
  | nil => rfl
  | cons r rects ih =>
    have hr := decodeRect_copy (h r List.mem_cons_self) s
    show receiveCopies d (.rect _ _ _ _ encodingCopyRect :: .copySource _ _ :: _) s = _
    rw [receiveCopies, if_pos rfl]
    dsimp only
    rw [bind_ok hr]
    exact ih (fun r' hr' => h r' (List.mem_cons_of_mem r hr')) _

end Client

/-! ## In place and at once -/

/-- **Copies are done in place.** In the order of `get_rects`, no rectangle is read where an
earlier one was written, so the copy of a region is done at once; `copyRect` does that of a
rectangle at once. If the copy stays in the framebuffer, this is what the comparer makes of
its copy of the framebuffer, and the client of what `writeCopyRects` sends. -/
theorem copies_in_place {width : PixelWidth} (R : Region) (delta : Point) :
    (Region.get_rects R.boxes (delta.1 ≤ 0) (delta.2 ≤ 0)).Pairwise
        (fun r s => ∀ p ∈ Region.ofRect s, p - delta ∉ Region.ofRect r) ∧
      (∀ f : Point → C, (Region.get_rects R.boxes (delta.1 ≤ 0) (delta.2 ≤ 0)).foldl
        (fun f r => move ⟨Region.ofRect r, delta⟩ f) f = move ⟨R, delta⟩ f) ∧
      (∀ {fbRect rect : Rect} {stride : ℤ}, Copyable fbRect rect delta → fbRect.width ≤ stride →
        ∀ mem : ℤ → C, ∃ mem',
          copyRectMemory stride fbRect rect delta mem = .ok (some mem') ∧
          (∀ p ∈ Region.ofRect fbRect, mem' (address stride p) =
            move ⟨Region.ofRect rect, delta⟩ (fun q => mem (address stride q)) p) ∧
          ∀ a, (∀ p ∈ Region.ofRect rect, a ≠ address stride p) → mem' a = mem a) ∧
      (∀ {dir : ScrollDirection} {c : ComparingUpdateTracker C dir} {fb : PixelBuffer C},
        c.tracker.copied = R → c.tracker.copyDelta = delta → CopyFits fb.getRect R delta →
          c.applyCopied fb = .ok (move c.tracker.copy c.oldFb)) ∧
      ∀ {ctx : EncodeContext} {w w' : SMsgWriter} {d : DecodeParams width},
        CopyFits d.fbRect R delta → EncodeManager.writeCopyRects ctx R delta w = .ok w' →
        ∃ outs, w'.pixelStream ctx.cp = w.pixelStream ctx.cp ++ outs ∧
          ∀ s : DecodeState d, receiveCopies d outs s =
            .ok { s with frame := move ⟨R, delta⟩ s.frame } := by
  rw [Region.get_rects_boxes]
  refine ⟨?_, fun f => ?_, fun {fbRect rect stride} h hstride mem => ?_,
    fun {dir c fb} hcopied hdelta hfits => ?_, fun {ctx w w' d} hfits hwrite => ?_⟩
  · exact List.pairwise_map.mp (Region.rectMoves_clean R delta)
  · rw [← Region.moves_rectMoves, moves, Region.rectMoves, List.foldl_map]
  · refine ⟨_, copyRectMemory_eq h hstride mem, fun p hp => move_address h hstride mem hp,
      fun a ha => congrArg mem (Move.origin_of_notMem fun hmem => ?_)⟩
    obtain ⟨p, hp, rfl⟩ := Finset.mem_image.mp hmem
    exact ha p hp rfl
  · subst hcopied hdelta
    exact hfits.applyCopied
  · refine ⟨_, pixelStream_writeCopyRects hwrite, fun s => ?_⟩
    rw [receiveCopies_eq (fun r hr => hfits.copyable hr) s]
    exact congrArg (fun frame => Except.ok { s with frame := frame })
      (Region.moves_rectMoves R delta s.frame)

end KasmVNC.Rfb
