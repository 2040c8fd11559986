import KasmVNC.Lib.Raster

/-!
# Cutting rectangles out of a block

A scan goes through a block row by row and takes out one-coloured rectangles as it meets
pixels that are not background. What a rectangle covers below its first row becomes
background in the scan's own copy of the block, so that it is not met again. `Sweep` says
where such a scan is; when it is at its end, the rectangles make up the block again.
-/

namespace KasmVNC.Lib

variable {α : Type*}

/-- The rectangle lies in a block of the given width and height. -/
def Subrect.Inside (w h : ℕ) (s : Subrect α) : Prop := s.x + s.w ≤ w ∧ s.y + s.h ≤ h

/-- The pixels below the first row of a rectangle become background. -/
def Subrect.erase (bg : α) (s : Subrect α) (data : Block α) : Block α :=
  Subrect.paint ⟨s.x, s.y + 1, s.w, s.h - 1, bg⟩ data

/-- The scan of `f` is at column `x` of row `y`, has found `ss`, and has `data` left. -/
structure Sweep (w h : ℕ) (f : Block α) (bg : α) (x y : ℕ) (ss : List (Subrect α))
    (data : Block α) : Prop where
  inside : ∀ s ∈ ss, s.Inside w h
  shows : ∀ s ∈ ss, s.Shows f
  data_eq : ∀ p < w, ∀ q < h, data p q = f p q ∨ (data p q = bg ∧ ∃ s ∈ ss, s.Contains p q)
  visited : ∀ p < w, ∀ q < h, (q < y ∨ q = y ∧ p < x) → f p q = bg ∨ ∃ s ∈ ss, s.Contains p q

section Sweep

variable {w h x y : ℕ} {f data : Block α} {bg : α} {ss : List (Subrect α)}

theorem sweep_start : Sweep w h f bg 0 0 [] f where
  inside := by simp
  shows := by simp
  data_eq := fun _ _ _ _ => Or.inl rfl
  visited := by
    intro p _ q _ hbefore
    omega

/-- A pixel of the background is passed over. Perhaps it has been erased. -/
theorem Sweep.skip (hs : Sweep w h f bg x y ss data) (hbg : data x y = bg) :
    Sweep w h f bg (x + 1) y ss data where
  inside := hs.inside
  shows := hs.shows
  data_eq := hs.data_eq
  visited := by
    intro p hp q hq hbefore
    by_cases hhere : q = y ∧ p = x
    · obtain ⟨rfl, rfl⟩ := hhere
      rcases hs.data_eq p hp q hq with hsame | ⟨-, hfound⟩
      · exact Or.inl (hsame.symm.trans hbg)
      · exact Or.inr hfound
    · exact hs.visited p hp q hq (by omega)

/-- A rectangle that starts here and has one colour in what is left has it in the block as
well: none of its pixels has been erased. -/
theorem Sweep.shows_of_data (hs : Sweep w h f bg x y ss data) {s : Subrect α}
    (hin : s.Inside w h) (hdata : s.Shows data) (hbg : s.colour ≠ bg) : s.Shows f := by
  intro p q hcont
  have hpixel := hdata p q hcont
  obtain ⟨⟨-, hp⟩, -, hq⟩ := hcont
  obtain ⟨hw, hh⟩ := hin
  rcases hs.data_eq p (by omega) q (by omega) with hsame | ⟨herased, -⟩
  · exact hsame.symm.trans hpixel
  · exact absurd (hpixel.symm.trans herased) hbg

theorem Sweep.take (hs : Sweep w h f bg x y ss data) {s : Subrect α} (hx : s.x = x)
    (hy : s.y = y) (hh : 0 < s.h) (hin : s.Inside w h) (hdata : s.Shows data)
    (hbg : s.colour ≠ bg) :
    Sweep w h f bg (x + s.w) y (ss ++ [s]) (s.erase bg data) where
  inside := by
    rw [List.forall_mem_append, List.forall_mem_singleton]
    exact ⟨hs.inside, hin⟩
  shows := by
    rw [List.forall_mem_append, List.forall_mem_singleton]
    exact ⟨hs.shows, hs.shows_of_data hin hdata hbg⟩
  data_eq := by
    intro p hp q hq
    unfold Subrect.erase Subrect.paint
    by_cases hbelow : (⟨s.x, s.y + 1, s.w, s.h - 1, bg⟩ : Subrect α).Contains p q
    · rw [if_pos hbelow]
      obtain ⟨hcols, hqlo, hqhi⟩ := hbelow
      dsimp only at hcols hqlo hqhi
      exact Or.inr ⟨rfl, s, List.mem_append_right _ List.mem_cons_self, hcols, by omega⟩
    · rw [if_neg hbelow]
      refine (hs.data_eq p hp q hq).imp_right ?_
      rintro ⟨herased, t, ht, hcont⟩
      exact ⟨herased, t, List.mem_append_left _ ht, hcont⟩
  visited := by
    intro p hp q hq hbefore
    by_cases hnew : q = y ∧ x ≤ p
    · exact Or.inr ⟨s, List.mem_append_right _ List.mem_cons_self, by omega, by omega⟩
    · refine (hs.visited p hp q hq (by omega)).imp_right ?_
      rintro ⟨t, ht, hcont⟩
      exact ⟨t, List.mem_append_left _ ht, hcont⟩

/-- The end of a row is the start of the next one. -/
theorem Sweep.nextRow (hs : Sweep w h f bg x y ss data) (hx : w ≤ x) :
    Sweep w h f bg 0 (y + 1) ss data where
  inside := hs.inside
  shows := hs.shows
  data_eq := hs.data_eq
  visited := by
    intro p hp q hq hbefore
    exact hs.visited p hp q hq (by omega)

/-- **The whole scan.** Painting what it has found over the background gives the block. -/
theorem Sweep.done (hs : Sweep w h f bg x y ss data) (hy : h ≤ y) {p q : ℕ} (hp : p < w)
    (hq : q < h) : paintAll (fun _ _ => bg) ss p q = f p q := by
  refine paintAll_eq hs.shows ?_
  exact (hs.visited p hp q hq (Or.inl (by omega))).imp_left Eq.symm

end Sweep

end KasmVNC.Lib
