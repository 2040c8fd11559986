import Mathlib.Algebra.Group.Action.Defs
import Mathlib.Algebra.Order.BigOperators.Group.List
import Mathlib.Algebra.BigOperators.Ring.Finset
import Mathlib.Data.List.Induction
import Mathlib.Tactic.NormNum
import KasmVNC.Lib.LastValues
import KasmVNC.Lib.Undefined
import KasmVNC.Rfb.EncodeManager

/-!
# The window of video detection

`rfb::EncodeManager` keeps for each of the last frames how much of the screen has changed, in
percent, in a ring of bytes. Video is detected by the mean of the ring. A timer clears the
ring.

The percentage is computed in 32 bits: the area is multiplied by 100 first.
-/

namespace KasmVNC.Rfb.VideoStats

open KasmVNC.Lib

/-- `new unsigned char[2000 * 60]` -/
def ringSize : ℕ := 120000

/-- The parameters, with the limits that they have. -/
structure Settings where
  videoTime : ℤ
  frameRate : ℤ
  videoArea : ℤ
  videoTime_limits : 0 ≤ videoTime ∧ videoTime ≤ 2000
  frameRate_limits : -2 ^ 31 ≤ frameRate ∧ frameRate < 2 ^ 31
  videoArea_limits : 1 ≤ videoArea ∧ videoArea ≤ 100

/-- A framebuffer and the rectangles of it that have changed. -/
structure Frame where
  width : ℕ
  height : ℕ
  rects : List Rect
  nonempty : 0 < width ∧ 0 < height
  limits : width ≤ 16384 ∧ height ≤ 16384
  inside : ∀ r ∈ rects, r.enclosedBy ⟨(0, 0), (width, height)⟩
  disjoint : rects.Pairwise fun r s => Disjoint (Region.ofRect r) (Region.ofRect s)

structure Stats where
  areaPercentages : ℕ → ℕ
  areaCur : ℕ
  videoDetected : Bool
  /-- Some computation has wrapped around. -/
  wraps : Bool

def Settings.initial (cfg : Settings) : Stats := ⟨fun _ => 0, 0, cfg.videoTime = 0, false⟩

/-- The sum of the areas. -/
def addArea (area : Unsigned) (r : Rect) : Option Unsigned := do
  let a ← int r.area
  return area.add (.ofInt a)

/-- The sum of the cells below `samples`. -/
def sumCells (areaPercentages : ℕ → ℕ) (samples : ℕ) : Unsigned :=
  (List.range samples).foldl (fun area i => area.add (.exact (areaPercentages i))) (.exact 0)

/-- The index of each cell that is read or written is below the size of the ring. -/
def updateVideoStats (cfg : Settings) (f : Frame) (s : Stats) : Option Stats :=
  if cfg.videoTime = 0 then some { s with videoDetected := true }
  else do
    let product ← int (cfg.videoTime * cfg.frameRate)
    let samples := Unsigned.ofInt product
    let area ← f.rects.foldlM addArea (.exact 0)
    let pixels ← int (f.width * f.height)
    let area ← (area.mul (.exact 100)).div (.ofInt pixels)
    guard (s.areaCur < ringSize)
    let areaPercentages := Function.update s.areaPercentages s.areaCur (area.value % 256)
    let areaCur ← (Unsigned.add (.exact s.areaCur) (.exact 1)).mod samples
    guard (samples.value ≤ ringSize)
    let mean ← (sumCells areaPercentages samples.value).div samples
    return {
      areaPercentages
      areaCur := areaCur.value
      videoDetected := s.videoDetected || (Unsigned.ofInt cfg.videoArea).value < mean.value
      wraps := s.wraps || area.wraps || areaCur.wraps || mean.wraps }

/-- The timer, where `videoTime` is unsigned. -/
def handleTimeout (cfg : Settings) (s : Stats) : Option Stats := do
  let videoTime := if cfg.videoTime < 1 then 1 else cfg.videoTime
  let cells := (Unsigned.ofInt videoTime).mul (.ofInt cfg.frameRate)
  guard (cells.value ≤ ringSize)
  return { s with
    areaPercentages := fun i => if i < cells.value then 0 else s.areaPercentages i
    videoDetected := false }

inductive Event
  | frame (f : Frame)
  | timeout

def step (cfg : Settings) (s : Stats) : Event → Option Stats
  | .frame f => updateVideoStats cfg f s
  | .timeout => handleTimeout cfg s

def runs (cfg : Settings) (es : List Event) : Option Stats := es.foldlM (step cfg) cfg.initial

/-! ## What the window should hold -/

namespace Frame

def changed (f : Frame) : Region := f.rects.foldr (fun r region => Region.ofRect r ∪ region) ∅

/-- How much of the framebuffer has changed. -/
def percentage (f : Frame) : ℕ := 100 * f.changed.card / (f.width * f.height)

end Frame

/-- The percentages of the frames since the last reset, the newest one first. -/
def history (es : List Event) : List ℕ :=
  es.foldl (fun percentages e => match e with
    | .frame f => f.percentage :: percentages
    | .timeout => []) []

/-- The window is right after some events, the last of them a frame. -/
structure Right (cfg : Settings) (es : List Event) (s : Stats) : Prop where
  window : ∀ n : ℕ, cfg.videoTime * cfg.frameRate = n →
    HoldsLast s.areaPercentages n s.areaCur 0 (history es) ∧
      (∀ i < n, s.areaPercentages i ≤ 100) ∧
      (cfg.videoArea < ((List.range n).map s.areaPercentages).sum / n → s.videoDetected = true)
  exact : s.wraps = false

/-- The window is right after each frame of a run. -/
def VideoWindow (cfg : Settings) (es : List Event) : Prop :=
  ∀ before f, before ++ [.frame f] <+: es → Returns (runs cfg (before ++ [.frame f]))
    (Right cfg (before ++ [.frame f]))

/-- The ring has room for the window, and the area in percent fits into 32 bits. -/
def Fits (cfg : Settings) (f : Frame) : Prop :=
  (0 < cfg.videoTime * cfg.frameRate ∧ cfg.videoTime * cfg.frameRate ≤ ringSize) ∧
    100 * f.changed.card < 2 ^ 32

/-! ## Areas -/

theorem card_ofRect (r : Rect) : ((Region.ofRect r).card : ℤ) = r.area := by
  have hcard : (Region.ofRect r).card = (r.br.1 - r.tl.1).toNat * (r.br.2 - r.tl.2).toNat := by
    unfold Region.ofRect
    rw [Finset.card_product, Int.card_Ico, Int.card_Ico]
  rw [hcard, Nat.cast_mul]
  unfold Rect.area Rect.isEmpty Rect.width Rect.height
  by_cases hempty : r.tl.1 ≥ r.br.1 ∨ r.tl.2 ≥ r.br.2
  · rw [if_pos (by rwa [Bool.or_eq_true, decide_eq_true_eq, decide_eq_true_eq])]
    rcases hempty with h | h
    · rw [Int.toNat_of_nonpos (by omega), Nat.cast_zero, Int.zero_mul]
    · rw [Int.toNat_of_nonpos (by omega : r.br.2 - r.tl.2 ≤ 0), Nat.cast_zero, Int.mul_zero]
  · rw [if_neg (by rwa [Bool.or_eq_true, decide_eq_true_eq, decide_eq_true_eq]),
      Int.toNat_of_nonneg (by omega), Int.toNat_of_nonneg (by omega)]

namespace Frame

theorem mem_foldr {rects : List Rect} {p : Point} :
    p ∈ rects.foldr (fun r region => Region.ofRect r ∪ region) ∅ ↔
      ∃ r ∈ rects, p ∈ Region.ofRect r := by
  induction rects with
  | nil => simp
  | cons r rects ih => rw [List.foldr_cons, Finset.mem_union, ih, List.exists_mem_cons_iff]

/-- Areas of disjoint rectangles add up. -/
theorem sum_card {rects : List Rect}
    (h : rects.Pairwise fun r s => Disjoint (Region.ofRect r) (Region.ofRect s)) :
    (rects.map fun r => (Region.ofRect r).card).sum =
      (rects.foldr (fun r region => Region.ofRect r ∪ region) ∅).card := by
  induction rects with
  | nil => rfl
  | cons r rects ih =>
    obtain ⟨hr, hrects⟩ := List.pairwise_cons.mp h
    have hdisjoint : Disjoint (Region.ofRect r)
        (rects.foldr (fun r region => Region.ofRect r ∪ region) ∅) := by
      refine Finset.disjoint_left.mpr fun p hp hp' => ?_
      obtain ⟨s, hs, hps⟩ := mem_foldr.mp hp'
      exact Finset.disjoint_left.mp (hr s hs) hp hps
    rw [List.map_cons, List.sum_cons, ih hrects, List.foldr_cons,
      Finset.card_union_of_disjoint hdisjoint]

variable (f : Frame)

theorem card_changed_le : f.changed.card ≤ f.width * f.height := by
  have hsub : f.changed ⊆ Region.ofRect ⟨(0, 0), (f.width, f.height)⟩ := by
    intro p hp
    obtain ⟨r, hr, hpr⟩ := mem_foldr.mp hp
    obtain ⟨hleft, htop, hright, hbottom⟩ := f.inside r hr
    rw [Region.mem_ofRect] at hpr ⊢
    dsimp only at *
    omega
  have hcard : (Region.ofRect ⟨(0, 0), (f.width, f.height)⟩).card = f.width * f.height := by
    unfold Region.ofRect
    rw [Finset.card_product, Int.card_Ico, Int.card_Ico]
    simp
  exact hcard ▸ Finset.card_le_card hsub

theorem pixels_pos : 0 < f.width * f.height := Nat.mul_pos f.nonempty.1 f.nonempty.2

theorem pixels_le : f.width * f.height ≤ 268435456 :=
  calc f.width * f.height ≤ 16384 * 16384 := Nat.mul_le_mul f.limits.1 f.limits.2
    _ = 268435456 := by norm_num

theorem percentage_le : f.percentage ≤ 100 := by
  unfold percentage
  refine Nat.div_le_of_le_mul ?_
  rw [Nat.mul_comm (f.width * f.height)]
  exact Nat.mul_le_mul_left 100 f.card_changed_le

/-- The sum of the areas never wraps around. -/
theorem sum_areas {rects : List Rect} : ∀ {m : ℕ},
    m + (rects.map fun r => (Region.ofRect r).card).sum < 2 ^ 31 →
      rects.foldlM addArea (.exact m) =
        some (.exact (m + (rects.map fun r => (Region.ofRect r).card).sum)) := by
  induction rects with
  | nil => exact fun _ => rfl
  | cons r rects ih =>
    intro m h
    rw [List.map_cons, List.sum_cons, ← Nat.add_assoc] at h ⊢
    have hadd : addArea (.exact m) r = some (.exact (m + (Region.ofRect r).card)) := by
      have harea := card_ofRect r
      unfold addArea
      rw [← harea, int_eq (by omega) (by omega), Option.bind_eq_bind, Option.bind_some,
        Unsigned.ofInt_exact (by omega) (by omega), Int.toNat_natCast,
        Unsigned.add_exact (by omega)]
      rfl
    rw [List.foldlM_cons, hadd, Option.bind_eq_bind, Option.bind_some]
    exact ih h

theorem sum_area : (f.rects.map Rect.area).sum = f.changed.card := by
  have hsum : (f.rects.map fun r => (Region.ofRect r).card).sum = f.changed.card :=
    sum_card f.disjoint
  rw [← hsum, Nat.cast_list_sum, List.map_map]
  exact congrArg List.sum (List.map_congr_left fun r _ => (card_ofRect r).symm)

theorem area_eq : f.rects.foldlM addArea (.exact 0) = some (.exact f.changed.card) := by
  have hsum : (f.rects.map fun r => (Region.ofRect r).card).sum = f.changed.card :=
    sum_card f.disjoint
  have hle := f.card_changed_le.trans f.pixels_le
  rw [sum_areas (by omega), hsum, Nat.zero_add]

end Frame

/-! ## One frame -/

section Step

variable {cfg : Settings} {f : Frame} {s : Stats} {es : List Event} {n : ℕ}

theorem history_frame : history (es ++ [.frame f]) = f.percentage :: history es := by
  unfold history
  rw [List.foldl_append]
  rfl

theorem history_timeout : history (es ++ [.timeout]) = [] := by
  unfold history
  rw [List.foldl_append]
  rfl

theorem sumCells_exact {areaPercentages : ℕ → ℕ} (hn : n ≤ ringSize)
    (hle : ∀ i < n, areaPercentages i ≤ 100) :
    sumCells areaPercentages n = .exact ((List.range n).map areaPercentages).sum := by
  have hsum : ((List.range n).map areaPercentages).sum ≤ n * 100 := by
    have hbound := List.sum_le_card_nsmul ((List.range n).map areaPercentages) 100 fun v hv => by
      obtain ⟨i, hi, rfl⟩ := List.mem_map.mp hv
      exact hle i (List.mem_range.mp hi)
    rwa [List.length_map, List.length_range, smul_eq_mul] at hbound
  unfold sumCells
  unfold ringSize at hn
  rw [Unsigned.foldl_add_exact (by omega), Nat.zero_add]

/-- What is known between two events. -/
structure Window (cfg : Settings) (n : ℕ) (es : List Event) (s : Stats) : Prop where
  samples : cfg.videoTime * cfg.frameRate = n
  ring : HoldsLast s.areaPercentages n s.areaCur 0 (history es)
  exact : s.wraps = false

theorem Window.frameRate_pos (h : Window cfg n es s) : 0 < cfg.frameRate := by
  by_contra hle
  have hneg := Int.mul_nonpos_of_nonneg_of_nonpos cfg.videoTime_limits.1 (Int.not_lt.mp hle)
  have hsamples := h.samples
  have hcur := h.ring.cur_lt
  omega

theorem Window.product (h : Window cfg n es s) :
    cfg.videoTime.toNat * cfg.frameRate.toNat = n := by
  have hsamples := h.samples
  rw [← Int.toNat_of_nonneg cfg.videoTime_limits.1,
    ← Int.toNat_of_nonneg h.frameRate_pos.le] at hsamples
  exact_mod_cast hsamples

theorem history_le (es : List Event) : ∀ p ∈ history es, p ≤ 100 := by
  induction es using List.reverseRecOn with
  | nil => exact fun p hp => absurd hp List.not_mem_nil
  | append_singleton es e ih =>
    cases e with
    | frame f =>
      rw [history_frame]
      intro p hp
      rcases List.mem_cons.mp hp with rfl | hp
      · exact f.percentage_le
      · exact ih p hp
    | timeout =>
      rw [history_timeout]
      exact fun p hp => absurd hp List.not_mem_nil

/-- The next state, computed without wrapping around. -/
def nextStats (cfg : Settings) (n : ℕ) (f : Frame) (s : Stats) : Stats :=
  let areaPercentages := Function.update s.areaPercentages s.areaCur f.percentage
  { areaPercentages
    areaCur := (s.areaCur + 1) % n
    videoDetected := s.videoDetected ||
      cfg.videoArea.toNat < ((List.range n).map areaPercentages).sum / n
    wraps := false }

theorem Window.write (h : Window cfg n es s) :
    HoldsLast (Function.update s.areaPercentages s.areaCur f.percentage) n ((s.areaCur + 1) % n) 0
      (history (es ++ [.frame f])) := by
  rw [history_frame]
  exact h.ring.write

theorem cell_le {ring : ℕ → ℕ} {cur : ℕ} (h : HoldsLast ring n cur 0 (history es)) {i : ℕ}
    (hi : i < n) : ring i ≤ 100 := h.all (P := (· ≤ 100)) (Nat.zero_le _) (history_le es) hi

theorem updateVideoStats_eq (htime : 1 ≤ cfg.videoTime) (hfits : Fits cfg f)
    (h : Window cfg n es s) : updateVideoStats cfg f s = some (nextStats cfg n f s) := by
  obtain ⟨⟨hpos, hroom⟩, harea⟩ := hfits
  have hsize : ringSize = 120000 := rfl
  have hsamples := h.samples
  have hcur := h.ring.cur_lt
  have hpixels := f.pixels_le
  have hpixels' := f.pixels_pos
  have hlimits := cfg.videoArea_limits
  have hn : n ≤ ringSize := by omega
  have hcur' : s.areaCur < ringSize := by omega
  have hbyte : (Unsigned.exact (f.changed.card * 100 / (f.width * f.height))).value % 256 =
      f.percentage := by
    rw [Unsigned.exact_value, Nat.mul_comm f.changed.card]
    exact Nat.mod_eq_of_lt (lt_of_le_of_lt f.percentage_le (by decide))
  have hsum : sumCells (Function.update s.areaPercentages s.areaCur f.percentage)
      (Unsigned.exact n).value = .exact ((List.range n).map
        (Function.update s.areaPercentages s.areaCur f.percentage)).sum :=
    sumCells_exact hn fun i hi => cell_le h.write hi
  unfold updateVideoStats
  rw [if_neg (by omega), h.samples, int_eq (by omega) (by omega)]
  simp only [Option.bind_eq_bind, Option.bind_some]
  rw [Unsigned.ofInt_exact (by omega) (by omega), Int.toNat_natCast, f.area_eq, Option.bind_some,
    ← Nat.cast_mul, int_eq (by omega) (by omega), Option.bind_some,
    Unsigned.ofInt_exact (by omega) (by omega), Int.toNat_natCast, Unsigned.mul_exact (by omega),
    Unsigned.div_exact (by omega), Option.bind_some, guard_true hcur', Option.bind_some]
  rw [hbyte, Unsigned.add_exact (by omega), Unsigned.mod_exact (by omega), Option.bind_some,
    guard_true (p := (Unsigned.exact n).value ≤ ringSize) hn, Option.bind_some, hsum,
    Unsigned.div_exact (by omega), Option.bind_some, Unsigned.ofInt_exact (by omega) (by omega),
    h.exact]
  rfl

theorem frame_window (htime : 1 ≤ cfg.videoTime) (hfits : Fits cfg f) (h : Window cfg n es s) :
    Returns (updateVideoStats cfg f s) fun t =>
      Window cfg n (es ++ [.frame f]) t ∧ Right cfg (es ++ [.frame f]) t := by
  rw [updateVideoStats_eq htime hfits h]
  refine Returns.done ⟨⟨h.samples, h.write, rfl⟩, fun m hm => ?_, rfl⟩
  obtain rfl : n = m := Nat.cast_injective (R := ℤ) (h.samples.symm.trans hm)
  refine ⟨h.write, fun i hi => cell_le h.write hi, fun hmean => ?_⟩
  have hlimits := cfg.videoArea_limits
  dsimp only [nextStats] at hmean ⊢
  rw [Bool.or_eq_true, decide_eq_true_eq]
  exact Or.inr (by omega)

/-- The timer clears the cells of the window. -/
theorem timeout_window (htime : 1 ≤ cfg.videoTime) (hn : n ≤ ringSize) (h : Window cfg n es s) :
    Returns (handleTimeout cfg s) (Window cfg n (es ++ [.timeout])) := by
  have hcur := h.ring.cur_lt
  have hsize : ringSize = 120000 := rfl
  have hlimits := cfg.videoTime_limits
  have hlimits' := cfg.frameRate_limits
  have hrate := h.frameRate_pos
  have hproduct := h.product
  unfold handleTimeout
  rw [if_neg (by omega)]
  dsimp only
  rw [Unsigned.ofInt_exact (by omega) (by omega), Unsigned.ofInt_exact (by omega) (by omega),
    Unsigned.mul_exact (by omega), hproduct]
  rw [guard_true (p := (Unsigned.exact n).value ≤ ringSize) hn]
  refine Returns.done ⟨h.samples, ?_, h.exact⟩
  rw [history_timeout]
  exact HoldsLast.clear hcur fun i hi => if_pos hi

/-- Only a frame that fits is computed without wrapping around. -/
theorem frame_fits (htime : 1 ≤ cfg.videoTime) :
    Allows (updateVideoStats cfg f s) fun t => t.wraps = false → Fits cfg f := by
  have hpixels := f.pixels_le
  have hpixels' := f.pixels_pos
  unfold updateVideoStats
  rw [if_neg (by omega)]
  refine Allows.bind (P := (cfg.videoTime * cfg.frameRate = · ∧
    -2 ^ 31 ≤ cfg.videoTime * cfg.frameRate ∧ cfg.videoTime * cfg.frameRate < 2 ^ 31))
    (fun product hproduct => ⟨of_int hproduct, int_bounds hproduct⟩) ?_
  rintro product ⟨rfl, hlo, hhi⟩
  rw [f.area_eq, Option.bind_eq_bind, Option.bind_some, Option.bind_eq_bind, ← Nat.cast_mul,
    int_eq (by omega) (by omega), Option.bind_some]
  refine Allows.bind (P := fun area => area.wraps = false → f.changed.card * 100 < 2 ^ 32)
    (fun area harea hwraps => ?_) fun area harea => ?_
  · rw [(Unsigned.of_div harea).2] at hwraps
    exact (Unsigned.of_mul_wraps (Bool.or_eq_false_iff.mp hwraps).1).2.2
  refine Allows.trivial.bind fun _ _ => ?_
  refine Allows.bind (P := fun _ => (Unsigned.ofInt (cfg.videoTime * cfg.frameRate)).value ≠ 0)
    (fun areaCur hcur => Unsigned.of_mod hcur) fun areaCur hsamples => ?_
  refine Allows.bind (P := fun _ => (Unsigned.ofInt (cfg.videoTime * cfg.frameRate)).value ≤ ringSize)
    (fun _ hguard => of_guard hguard) fun _ hroom => ?_
  refine Allows.trivial.bind fun mean _ => Allows.done fun hwraps => ?_
  have hfit := harea (Bool.or_eq_false_iff.mp (Bool.or_eq_false_iff.mp
    (Bool.or_eq_false_iff.mp hwraps).1).1).2
  unfold Unsigned.ofInt at hsamples hroom
  dsimp only at hsamples hroom
  have hsize : ringSize = 120000 := rfl
  exact ⟨⟨by omega, by omega⟩, by omega⟩

end Step

/-! ## Runs -/

section Runs

variable {cfg : Settings} {f : Frame} {es : List Event}

theorem runs_concat (e : Event) : runs cfg (es ++ [e]) = runs cfg es >>= fun s => step cfg s e := by
  unfold runs
  rw [List.foldlM_append]
  refine congrArg _ (funext fun s => ?_)
  rw [List.foldlM_cons]
  exact bind_pure _

theorem runs_window {n : ℕ} (htime : 1 ≤ cfg.videoTime) (hn : 0 < n) (hroom : n ≤ ringSize)
    (hsamples : cfg.videoTime * cfg.frameRate = n) (hfits : ∀ f, .frame f ∈ es → Fits cfg f) :
    Returns (runs cfg es) (Window cfg n es) := by
  induction es using List.reverseRecOn with
  | nil => exact Returns.done ⟨hsamples, HoldsLast.clear hn fun _ _ => rfl, rfl⟩
  | append_singleton es e ih =>
    rw [runs_concat]
    refine (ih fun f hf => hfits f (List.mem_append_left _ hf)).bind fun s hs => ?_
    cases e with
    | frame f =>
      have hf := hfits f (List.mem_append_right _ (List.mem_singleton.mpr rfl))
      exact (frame_window htime hf hs).mono fun t ht => ht.1
    | timeout => exact timeout_window htime hroom hs

/-- **The window is right exactly along the runs whose frames fit.** -/
theorem videoWindow_iff (htime : 1 ≤ cfg.videoTime) :
    VideoWindow cfg es ↔ ∀ f, .frame f ∈ es → Fits cfg f := by
  constructor
  · rintro h f hf
    obtain ⟨before, after, rfl⟩ := List.append_of_mem hf
    obtain ⟨t, ht, hright⟩ := h before f ⟨after, by rw [List.append_assoc]; rfl⟩
    rw [runs_concat] at ht
    obtain ⟨s, -, hstep⟩ := Option.bind_eq_some_iff.mp ht
    exact frame_fits htime t hstep hright.exact
  · rintro hfits before f ⟨after, rfl⟩
    have hall : ∀ g, .frame g ∈ before ++ [.frame f] → Fits cfg g :=
      fun g hg => hfits g (List.mem_append_left _ hg)
    have hf := hall f (List.mem_append_right _ (List.mem_singleton.mpr rfl))
    obtain ⟨n, hn⟩ := Int.eq_ofNat_of_zero_le hf.1.1.le
    have hsize := hf.1
    have hbefore := runs_window (n := n) htime (by omega) (by omega) hn
      fun g hg => hall g (List.mem_append_left _ hg)
    rw [runs_concat]
    refine hbefore.bind fun s hs => ?_
    exact (frame_window htime hf hs).mono fun t ht => ht.2

end Runs

/-- Ten samples. -/
def tenSamples : Settings :=
  ⟨1, 10, 45, ⟨by decide, by decide⟩, ⟨by decide, by decide⟩, ⟨by decide, by decide⟩⟩

/-- A frame that changes all of a square framebuffer. -/
def wholeFrame (side : ℕ) (hpos : 0 < side) (hle : side ≤ 16384) : Frame where
  width := side
  height := side
  rects := [⟨(0, 0), (side, side)⟩]
  nonempty := ⟨hpos, hpos⟩
  limits := ⟨hle, hle⟩
  inside := by
    intro r hr
    rw [List.mem_singleton.mp hr]
    exact ⟨le_rfl, le_rfl, le_rfl, le_rfl⟩
  disjoint := List.pairwise_singleton _ _

/-- The whole of the largest framebuffer changes, and 4 percent are recorded. -/
theorem window_wraps :
    (runs tenSamples [.frame (wholeFrame 16384 (by decide) (by decide))]).map
        (fun s => (s.areaPercentages 0, s.wraps)) = some (4, true) ∧
      ¬VideoWindow tenSamples [.frame (wholeFrame 16384 (by decide) (by decide))] := by
  have hrun : (runs tenSamples [.frame (wholeFrame 16384 (by decide) (by decide))]).map
      (fun s => (s.areaPercentages 0, s.wraps)) = some (4, true) := by decide
  refine ⟨hrun, fun h => ?_⟩
  obtain ⟨s, hs, hright⟩ := h [] _ List.prefix_rfl
  rw [List.nil_append] at hs
  rw [hs, Option.map_some, Option.some_inj] at hrun
  exact Bool.false_ne_true (hright.exact.symm.trans (congrArg Prod.snd hrun))

/-- A frame that changes the first rows of a small framebuffer. -/
def upperFrame : Frame where
  width := 64
  height := 64
  rects := [⟨(0, 0), (64, 16)⟩]
  nonempty := by decide
  limits := by decide
  inside := by
    intro r hr
    rw [List.mem_singleton.mp hr]
    exact ⟨le_rfl, le_rfl, le_rfl, by decide⟩
  disjoint := List.pairwise_singleton _ _

/-- Five frames of a video, a timeout, and a frame that changes a quarter. -/
def pausedVideo : List Event :=
  List.replicate 5 (.frame (wholeFrame 64 (by decide) (by decide))) ++ [.timeout, .frame upperFrame]

/-- The video is detected, and no longer after the timeout. -/
theorem videoWindow_paused :
    VideoWindow tenSamples pausedVideo ∧
      (runs tenSamples (pausedVideo.take 5)).map (·.videoDetected) = some true ∧
      (runs tenSamples pausedVideo).map (fun s => (s.areaPercentages 5, s.videoDetected)) =
        some (25, false) := by
  refine ⟨(videoWindow_iff (by decide)).mpr fun f hf => ⟨by decide, ?_⟩, by decide, by decide⟩
  have hle := f.card_changed_le
  have hsize : f.width * f.height = 4096 := by
    rcases List.mem_append.mp hf with hf | hf
    · cases List.eq_of_mem_replicate hf
      rfl
    · rcases List.mem_cons.mp hf with hf | hf
      · cases hf
      · cases List.mem_singleton.mp hf
        rfl
  omega

end KasmVNC.Rfb.VideoStats
