import Mathlib.Data.Finset.Sort
import Mathlib.Data.Finset.Prod
import Mathlib.Data.Int.Order.Basic
import Mathlib.Tactic.Tauto

/-!
# Banded decomposition of finite sets of lattice points

A finite set of integer points is listed as rectangles: rows with the same
horizontal spans that lie directly below each other form a band, and a band
contributes one rectangle per span. The decomposition depends on the set
alone, so it is a normal form.
-/

namespace KasmVNC.Lib

/-- Join adjacent integers of an increasing list into half-open spans. -/
def spans : List ℤ → List (ℤ × ℤ)
  | [] => []
  | x :: xs =>
    match spans xs with
    | [] => [(x, x + 1)]
    | (a, b) :: rest =>
      if a = x + 1 then (x, b) :: rest else (x, x + 1) :: (a, b) :: rest

/-- A band: the rows `top ≤ y < bottom` and the spans they share. -/
structure Band where
  top : ℤ
  bottom : ℤ
  row : List (ℤ × ℤ)

/-- Join adjacent rows with equal spans into bands. -/
def bands (row : ℤ → List (ℤ × ℤ)) : List ℤ → List Band
  | [] => []
  | y :: ys =>
    match bands row ys with
    | [] => [⟨y, y + 1, row y⟩]
    | b :: rest =>
      if b.top = y + 1 ∧ b.row = row y then ⟨y, b.bottom, row y⟩ :: rest
      else ⟨y, y + 1, row y⟩ :: b :: rest

theorem spans_nonempty : ∀ {xs : List ℤ} {s : ℤ × ℤ}, s ∈ spans xs → s.1 < s.2
  | x :: xs, s, h => by
    have ih := @spans_nonempty xs
    rw [spans] at h
    cases hsp : spans xs with
    | nil =>
      simp only [hsp, List.mem_singleton] at h
      rw [h]
      exact Int.lt_succ x
    | cons t rest =>
      obtain ⟨a, b⟩ := t
      rw [hsp] at ih
      have hab : a < b := ih List.mem_cons_self
      simp only [hsp] at h
      split at h
      · rcases List.mem_cons.mp h with rfl | h
        · show x < b
          omega
        · exact ih (List.mem_cons_of_mem _ h)
      · rcases List.mem_cons.mp h with rfl | h
        · exact Int.lt_succ x
        · exact ih h

/-- The spans cover exactly the listed integers. -/
theorem mem_spans : ∀ {xs : List ℤ} {i : ℤ},
    (∃ s ∈ spans xs, s.1 ≤ i ∧ i < s.2) ↔ i ∈ xs
  | [], i => by simp [spans]
  | x :: xs, i => by
    have ih := @mem_spans xs i
    have hlt := @spans_nonempty xs
    rw [spans]
    cases hsp : spans xs with
    | nil =>
      rw [hsp] at ih
      simp only [exists_eq_left, List.mem_cons, ← ih,
        List.not_mem_nil, false_and, exists_false, or_false]
      omega
    | cons t rest =>
      obtain ⟨a, b⟩ := t
      rw [hsp] at ih hlt
      have hab : a < b := hlt List.mem_cons_self
      simp only
      split
      · simp only [List.mem_cons, exists_eq_or_imp, ← ih]
        have : (x ≤ i ∧ i < b) ↔ (i = x ∨ a ≤ i ∧ i < b) := by omega
        rw [this, or_assoc]
      · simp only [List.mem_cons, exists_eq_or_imp, ← ih]
        have : (x ≤ i ∧ i < x + 1) ↔ i = x := by omega
        rw [this]

theorem bands_nonempty {row : ℤ → List (ℤ × ℤ)} : ∀ {ys : List ℤ} {b : Band},
    b ∈ bands row ys → b.top < b.bottom
  | y :: ys, b, h => by
    have ih := @bands_nonempty row ys
    rw [bands] at h
    cases hb : bands row ys with
    | nil =>
      simp only [hb, List.mem_singleton] at h
      rw [h]
      exact Int.lt_succ y
    | cons c rest =>
      rw [hb] at ih
      have hc : c.top < c.bottom := ih List.mem_cons_self
      simp only [hb] at h
      split at h
      · rename_i hjoin
        rcases List.mem_cons.mp h with rfl | h
        · show y < c.bottom
          omega
        · exact ih (List.mem_cons_of_mem _ h)
      · rcases List.mem_cons.mp h with rfl | h
        · exact Int.lt_succ y
        · exact ih h

/-- The rows of the bands are exactly the listed rows, each with its spans. -/
theorem mem_bands {row : ℤ → List (ℤ × ℤ)} : ∀ {ys : List ℤ} {y : ℤ} {r : List (ℤ × ℤ)},
    (∃ b ∈ bands row ys, b.top ≤ y ∧ y < b.bottom ∧ b.row = r) ↔
      y ∈ ys ∧ row y = r
  | [], y, r => by simp [bands]
  | z :: ys, y, r => by
    have ih := fun y r => @mem_bands row ys y r
    have hlt := @bands_nonempty row ys
    rw [bands]
    cases hb : bands row ys with
    | nil =>
      have hys : ∀ y, y ∉ ys := by
        intro y hy
        have := (ih y (row y)).mpr ⟨hy, rfl⟩
        simp [hb] at this
      simp only [List.mem_cons, hys, or_false, List.not_mem_nil, exists_eq_left]
      constructor
      · rintro ⟨h1, h2, h3⟩
        have : y = z := by omega
        exact ⟨this, this ▸ h3⟩
      · rintro ⟨rfl, h⟩
        exact ⟨le_refl _, Int.lt_succ _, h⟩
    | cons b rest =>
      rw [hb] at ih hlt
      have hb_lt : b.top < b.bottom := hlt List.mem_cons_self
      simp only
      split
      · rename_i hjoin
        obtain ⟨htop, hrow⟩ := hjoin
        have hrange : ∀ y, b.top ≤ y → y < b.bottom → y ∈ ys ∧ row y = row z :=
          fun y h1 h2 => (ih y (row z)).mp ⟨b, List.mem_cons_self, h1, h2, hrow⟩
        have ih' := ih y r
        simp only [List.mem_cons, exists_eq_or_imp] at ih' ⊢
        constructor
        · rintro (⟨h1, h2, h3⟩ | h)
          · rcases eq_or_lt_of_le h1 with rfl | hlt
            · exact ⟨Or.inl rfl, h3⟩
            · have hin := hrange y (by omega) h2
              exact ⟨Or.inr hin.1, hin.2.trans h3⟩
          · have hin := ih'.mp (Or.inr h)
            exact ⟨Or.inr hin.1, hin.2⟩
        · rintro ⟨rfl | hy, hr⟩
          · exact Or.inl ⟨le_refl _, by omega, hr⟩
          · rcases ih'.mpr ⟨hy, hr⟩ with ⟨h1, h2, h3⟩ | h
            · exact Or.inl ⟨by omega, h2, hrow ▸ h3⟩
            · exact Or.inr h
      · have ih' := ih y r
        simp only [List.mem_cons, exists_eq_or_imp] at ih' ⊢
        constructor
        · rintro (⟨h1, h2, h3⟩ | h)
          · have : y = z := by omega
            exact ⟨Or.inl this, this ▸ h3⟩
          · have hin := ih'.mp h
            exact ⟨Or.inr hin.1, hin.2⟩
        · rintro ⟨rfl | hy, hr⟩
          · exact Or.inl ⟨le_refl _, Int.lt_succ _, hr⟩
          · exact Or.inr (ih'.mpr ⟨hy, hr⟩)

/-! ## Their order -/

/-- The spans of an increasing list are in order. -/
theorem spans_sorted : ∀ {xs : List ℤ}, xs.Pairwise (· < ·) →
    (spans xs).Pairwise fun s t => s.2 ≤ t.1
  | [], _ => List.Pairwise.nil
  | x :: xs, h => by
    obtain ⟨hx, hxs⟩ := List.pairwise_cons.mp h
    have ih := spans_sorted hxs
    have hlater : ∀ s ∈ spans xs, x + 1 ≤ s.1 := fun s hs =>
      hx s.1 (mem_spans.mp ⟨s, hs, le_rfl, spans_nonempty hs⟩)
    rw [spans]
    cases hsp : spans xs with
    | nil => exact List.pairwise_singleton _ _
    | cons t rest =>
      obtain ⟨a, b⟩ := t
      rw [hsp] at ih hlater
      obtain ⟨hfirst, hrest⟩ := List.pairwise_cons.mp ih
      simp only
      split
      · exact List.pairwise_cons.mpr ⟨fun s hs => hfirst s hs, hrest⟩
      · exact List.pairwise_cons.mpr ⟨hlater, ih⟩

/-- The bands of an increasing list of rows are in order. -/
theorem bands_sorted {row : ℤ → List (ℤ × ℤ)} : ∀ {ys : List ℤ}, ys.Pairwise (· < ·) →
    (bands row ys).Pairwise fun b c => b.bottom ≤ c.top
  | [], _ => List.Pairwise.nil
  | y :: ys, h => by
    obtain ⟨hy, hys⟩ := List.pairwise_cons.mp h
    have ih := @bands_sorted row ys hys
    have hlater : ∀ b ∈ bands row ys, y + 1 ≤ b.top := fun b hb =>
      hy b.top (mem_bands.mp ⟨b, hb, le_rfl, bands_nonempty hb, rfl⟩).1
    rw [bands]
    cases hb : bands row ys with
    | nil => exact List.pairwise_singleton _ _
    | cons c rest =>
      rw [hb] at ih hlater
      obtain ⟨hfirst, hrest⟩ := List.pairwise_cons.mp ih
      simp only
      split
      · exact List.pairwise_cons.mpr ⟨fun b hb => hfirst b hb, hrest⟩
      · exact List.pairwise_cons.mpr ⟨hlater, ih⟩

end KasmVNC.Lib
