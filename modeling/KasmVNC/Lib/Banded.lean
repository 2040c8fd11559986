import KasmVNC.Lib.Spans

/-!
# Sets in bands

A finite set of lattice points is kept as bands from top to bottom, each with a row of spans.
Bands that touch have different rows, so there is only one way to write a set.
-/

namespace KasmVNC.Lib

/-- A band that is not empty. -/
structure Band.Proper (b : Band) : Prop where
  high : b.top < b.bottom
  row_ne : b.row ≠ []
  spaced : Spaced b.row

/-- A band lies above another one, and the two cannot be joined. -/
def Band.Above (b c : Band) : Prop := b.bottom ≤ c.top ∧ (b.bottom = c.top → b.row ≠ c.row)

/-- Bands in order, none of which can be joined. -/
structure Banded (bs : List Band) : Prop where
  proper : ∀ b ∈ bs, b.Proper
  above : bs.Pairwise Band.Above

/-- The spans of a line. -/
def rowAt : List Band → ℤ → List (ℤ × ℤ)
  | [], _ => []
  | b :: bs, y => if b.top ≤ y ∧ y < b.bottom then b.row else rowAt bs y

section

variable {b c : Band} {bs cs : List Band} {y : ℤ}

theorem rowAt_of_mem (h : b.top ≤ y ∧ y < b.bottom) : rowAt (b :: bs) y = b.row := if_pos h

theorem rowAt_of_notMem (h : ¬(b.top ≤ y ∧ y < b.bottom)) : rowAt (b :: bs) y = rowAt bs y :=
  if_neg h

/-- A line that is not empty is in a band. -/
theorem exists_of_rowAt_ne (h : rowAt bs y ≠ []) :
    ∃ b ∈ bs, (b.top ≤ y ∧ y < b.bottom) ∧ rowAt bs y = b.row := by
  induction bs with
  | nil => exact absurd rfl h
  | cons b bs ih =>
    by_cases hin : b.top ≤ y ∧ y < b.bottom
    · exact ⟨b, List.mem_cons_self, hin, rowAt_of_mem hin⟩
    · rw [rowAt_of_notMem hin] at h ⊢
      obtain ⟨c, hc, hin, heq⟩ := ih h
      exact ⟨c, List.mem_cons_of_mem _ hc, hin, heq⟩

theorem rowAt_eq_nil (h : ∀ b ∈ bs, ¬(b.top ≤ y ∧ y < b.bottom)) : rowAt bs y = [] := by
  by_contra hne
  obtain ⟨b, hb, hin, -⟩ := exists_of_rowAt_ne hne
  exact h b hb hin

theorem banded_nil : Banded [] := ⟨fun _ hb => absurd hb List.not_mem_nil, List.Pairwise.nil⟩

theorem banded_cons :
    Banded (b :: bs) ↔ b.Proper ∧ (∀ c ∈ bs, b.Above c) ∧ Banded bs := by
  constructor
  · intro h
    obtain ⟨hfirst, hrest⟩ := List.pairwise_cons.mp h.above
    obtain ⟨hb, hproper⟩ := List.forall_mem_cons.mp h.proper
    exact ⟨hb, hfirst, hproper, hrest⟩
  · rintro ⟨hb, hfirst, hrest⟩
    exact ⟨List.forall_mem_cons.mpr ⟨hb, hrest.proper⟩,
      List.pairwise_cons.mpr ⟨hfirst, hrest.above⟩⟩

theorem Banded.spaced_rowAt (h : Banded bs) (y : ℤ) : Spaced (rowAt bs y) := by
  by_cases hne : rowAt bs y = []
  · rw [hne]
    exact spaced_nil
  · obtain ⟨b, hb, -, heq⟩ := exists_of_rowAt_ne hne
    rw [heq]
    exact (h.proper b hb).spaced

/-- Below the first band there is nothing but the other bands. -/
theorem Banded.rowAt_tail (_ : Banded (b :: bs)) (hy : b.bottom ≤ y) :
    rowAt (b :: bs) y = rowAt bs y := rowAt_of_notMem fun hin => absurd hin.2 (not_lt.mpr hy)

theorem Banded.rowAt_tail_nil (h : Banded (b :: bs)) (hy : y < b.bottom) : rowAt bs y = [] := by
  refine rowAt_eq_nil fun c hc hin => ?_
  have hle := ((banded_cons.mp h).2.1 c hc).1
  omega

theorem Banded.rowAt_above_nil (h : Banded (b :: bs)) (hy : y < b.top) :
    rowAt (b :: bs) y = [] := by
  rw [rowAt_of_notMem (by omega)]
  exact h.rowAt_tail_nil (hy.trans (banded_cons.mp h).1.high)

theorem Banded.rowAt_top (h : Banded (b :: bs)) : rowAt (b :: bs) b.top = b.row :=
  rowAt_of_mem ⟨le_rfl, (banded_cons.mp h).1.high⟩

/-- The line below a band is another one. -/
theorem Banded.rowAt_bottom_ne (h : Banded (b :: bs)) : rowAt (b :: bs) b.bottom ≠ b.row := by
  rw [h.rowAt_tail le_rfl]
  intro heq
  have hne : rowAt bs b.bottom ≠ [] := heq ▸ (banded_cons.mp h).1.row_ne
  obtain ⟨c, hc, hin, hrow⟩ := exists_of_rowAt_ne hne
  obtain ⟨hle, hdiffers⟩ := (banded_cons.mp h).2.1 c hc
  exact hdiffers (le_antisymm hle hin.1) (heq.symm.trans hrow)

/-- **There is only one way to write a set.** -/
theorem Banded.ext (h : Banded bs) (h' : Banded cs) (hsame : ∀ y, rowAt bs y = rowAt cs y) :
    bs = cs := by
  -- the first band of one begins no later than that of the other, and ends no later if it has
  -- the same row
  have htop : ∀ {b c : Band} {bs cs : List Band}, Banded (b :: bs) → Banded (c :: cs) →
      rowAt (c :: cs) b.top = rowAt (b :: bs) b.top → c.top ≤ b.top := by
    intro b c bs cs hb hc heq
    by_contra hlt
    rw [hb.rowAt_top, hc.rowAt_above_nil (not_le.mp hlt)] at heq
    exact (banded_cons.mp hb).1.row_ne heq.symm
  have hbottom : ∀ {b c : Band} {bs cs : List Band}, Banded (b :: bs) → c.top = b.top →
      c.row = b.row → rowAt (c :: cs) b.bottom = rowAt (b :: bs) b.bottom →
        c.bottom ≤ b.bottom := by
    intro b c bs cs hb htop hrow heq
    by_contra hlt
    have hin : c.top ≤ b.bottom ∧ b.bottom < c.bottom :=
      ⟨htop.le.trans (banded_cons.mp hb).1.high.le, not_le.mp hlt⟩
    rw [rowAt_of_mem hin, hrow] at heq
    exact hb.rowAt_bottom_ne heq.symm
  induction bs generalizing cs with
  | nil =>
    cases cs with
    | nil => rfl
    | cons c cs =>
      have heq := hsame c.top
      rw [h'.rowAt_top] at heq
      exact absurd heq.symm (banded_cons.mp h').1.row_ne
  | cons b bs ih =>
    cases cs with
    | nil =>
      have heq := hsame b.top
      rw [h.rowAt_top] at heq
      exact absurd heq (banded_cons.mp h).1.row_ne
    | cons c cs =>
      have htops : c.top = b.top :=
        le_antisymm (htop h h' (hsame _).symm) (htop h' h (hsame _))
      have hrows : c.row = b.row := by
        have heq := hsame b.top
        rw [h.rowAt_top, ← htops, h'.rowAt_top] at heq
        exact heq.symm
      have hbottoms : c.bottom = b.bottom :=
        le_antisymm (hbottom h htops hrows (hsame _).symm)
          (hbottom h' htops.symm hrows.symm (hsame _))
      have hbc : b = c := by
        cases b
        cases c
        simp_all
      subst hbc
      refine congrArg (b :: ·) (ih (banded_cons.mp h).2.2 (banded_cons.mp h').2.2 fun y => ?_)
      by_cases hy : b.bottom ≤ y
      · rw [← h.rowAt_tail hy, ← h'.rowAt_tail hy]
        exact hsame y
      · rw [h.rowAt_tail_nil (not_le.mp hy), h'.rowAt_tail_nil (not_le.mp hy)]

theorem Banded.rowAt_of_band (h : Banded bs) (hb : b ∈ bs) (hy : b.top ≤ y ∧ y < b.bottom) :
    rowAt bs y = b.row := by
  induction bs with
  | nil => exact absurd hb List.not_mem_nil
  | cons c bs ih =>
    obtain ⟨-, habove, htail⟩ := banded_cons.mp h
    rcases List.mem_cons.mp hb with rfl | hb
    · exact rowAt_of_mem hy
    · rw [h.rowAt_tail ((habove b hb).1.trans hy.1)]
      exact ih htail hb

end

/-- The bands of an increasing list of lines cannot be joined. -/
theorem banded_bands {row : ℤ → List (ℤ × ℤ)} : ∀ {ys : List ℤ}, ys.Pairwise (· < ·) →
    (∀ y ∈ ys, row y ≠ [] ∧ Spaced (row y)) → Banded (bands row ys)
  | [], _, _ => banded_nil
  | y :: ys, h, hrow => by
    obtain ⟨hy, hys⟩ := List.pairwise_cons.mp h
    obtain ⟨⟨hne, hspaced⟩, hrows⟩ := List.forall_mem_cons.mp hrow
    have ih := banded_bands hys hrows
    have hlater : ∀ b ∈ bands row ys, y + 1 ≤ b.top := fun b hb =>
      hy b.top (mem_bands.mp ⟨b, hb, le_rfl, bands_nonempty hb, rfl⟩).1
    have hfirst : Band.Proper ⟨y, y + 1, row y⟩ := ⟨Int.lt_succ y, hne, hspaced⟩
    rw [bands]
    cases hb : bands row ys with
    | nil => exact banded_cons.mpr ⟨hfirst, fun _ hc => absurd hc List.not_mem_nil, banded_nil⟩
    | cons c rest =>
      rw [hb] at ih hlater
      obtain ⟨hc, habove, hrest⟩ := banded_cons.mp ih
      obtain ⟨hnext, -⟩ := List.forall_mem_cons.mp hlater
      have hhigh := hc.high
      dsimp only
      split
      · next hjoin =>
          refine banded_cons.mpr ⟨⟨?_, hne, hspaced⟩, fun d hd => ?_, hrest⟩
          · show y < c.bottom
            omega
          · refine ⟨(habove d hd).1, fun htouch => ?_⟩
            show row y ≠ d.row
            rw [← hjoin.2]
            exact (habove d hd).2 htouch
      · next hapart =>
          refine banded_cons.mpr ⟨hfirst, fun d hd => ?_, ih⟩
          rcases List.mem_cons.mp hd with rfl | hd
          · exact ⟨hnext, fun htouch hsame => hapart ⟨htouch.symm, hsame.symm⟩⟩
          · have hle := (habove d hd).1
            refine ⟨by show y + 1 ≤ d.top; omega, fun htouch => ?_⟩
            have htouch : y + 1 = d.top := htouch
            omega

/-! ## Moving -/

/-- A span that is moved. -/
def shiftSpan (dx : ℤ) (s : ℤ × ℤ) : ℤ × ℤ := (s.1 + dx, s.2 + dx)

theorem onRow_shift {dx x : ℤ} {row : List (ℤ × ℤ)} :
    OnRow (row.map (shiftSpan dx)) x ↔ OnRow row (x - dx) := by
  constructor
  · rintro ⟨t, ht, hlo, hhi⟩
    obtain ⟨s, hs, rfl⟩ := List.mem_map.mp ht
    exact ⟨s, hs, Int.le_sub_right_of_add_le hlo, Int.sub_right_lt_of_lt_add hhi⟩
  · rintro ⟨s, hs, hlo, hhi⟩
    exact ⟨_, List.mem_map_of_mem hs, Int.add_le_of_le_sub_right hlo,
      Int.lt_add_of_sub_right_lt hhi⟩

theorem Spaced.shift {row : List (ℤ × ℤ)} (h : Spaced row) (dx : ℤ) :
    Spaced (row.map (shiftSpan dx)) :=
  ⟨List.forall_mem_map.mpr fun s hs => Int.add_lt_add_right (h.proper s hs) dx,
    List.pairwise_map.mpr (h.apart.imp fun hlt => Int.add_lt_add_right hlt dx)⟩

def Band.shift (dx dy : ℤ) (b : Band) : Band :=
  ⟨b.top + dy, b.bottom + dy, b.row.map (shiftSpan dx)⟩

theorem shiftSpan_injective (dx : ℤ) : Function.Injective (shiftSpan dx) := by
  intro s t h
  simp only [shiftSpan, Prod.mk.injEq] at h
  exact Prod.ext (by omega) (by omega)

theorem Banded.shift {bs : List Band} (h : Banded bs) (dx dy : ℤ) :
    Banded (bs.map (Band.shift dx dy)) := by
  refine ⟨List.forall_mem_map.mpr fun b hb => ?_, List.pairwise_map.mpr (h.above.imp ?_)⟩
  · obtain ⟨hhigh, hne, hspaced⟩ := h.proper b hb
    exact ⟨Int.add_lt_add_right hhigh dy, fun hnil => hne (List.map_eq_nil_iff.mp hnil),
      hspaced.shift dx⟩
  · rintro b c ⟨hle, hrow⟩
    refine ⟨Int.add_le_add_right hle dy, fun htouch hsame => ?_⟩
    exact hrow (add_right_cancel htouch)
      (List.map_injective_iff.mpr (shiftSpan_injective dx) hsame)

theorem rowAt_shift {dx dy : ℤ} (bs : List Band) (y : ℤ) :
    rowAt (bs.map (Band.shift dx dy)) y = (rowAt bs (y - dy)).map (shiftSpan dx) := by
  induction bs with
  | nil => rfl
  | cons b bs ih =>
    have hin : (b.shift dx dy).top ≤ y ∧ y < (b.shift dx dy).bottom ↔
        b.top ≤ y - dy ∧ y - dy < b.bottom := by
      unfold Band.shift
      dsimp only
      omega
    rw [List.map_cons]
    by_cases h : b.top ≤ y - dy ∧ y - dy < b.bottom
    · rw [rowAt_of_mem h, rowAt_of_mem (hin.mpr h)]
      rfl
    · rw [rowAt_of_notMem h, rowAt_of_notMem (mt hin.mp h), ih]

end KasmVNC.Lib
