import KasmVNC.Rfb.Region

/-!
# Copies within a framebuffer

`copyRect` copies a rectangle line by line, in the order in which no line is overwritten
before it is copied, so the rectangle is copied as if at once.
-/

namespace KasmVNC.Rfb

open KasmVNC.Lib

/-- What `ModifiablePixelBuffer::copyRect` throws. -/
inductive CopyRectError
  | destination (rect fb : Rect)
  | source (rect fb : Rect)
deriving DecidableEq

def CopyRectError.str : CopyRectError → String
  | .destination rect fb =>
    s!"Destination rect {rect.width}x{rect.height} at {rect.tl.1},{rect.tl.2} exceeds framebuffer {fb.width}x{fb.height}"
  | .source rect fb =>
    s!"Source rect {rect.width}x{rect.height} at {rect.tl.1},{rect.tl.2} exceeds framebuffer {fb.width}x{fb.height}"

/-- The lines are copied from top to bottom if the content moves upwards, and else
from bottom to top. -/
def copyRect {C : Type*} (fbRect rect : Rect) (delta : Point) (f : Point → C) :
    Except CopyRectError (Point → C) :=
  let srect := rect.translate (-delta)
  let lines := Region.listing rect.tl.2 rect.br.2 fun _ => true
  if ¬ rect.enclosedBy fbRect then .error (.destination rect fbRect)
  else if ¬ srect.enclosedBy fbRect then .error (.source srect fbRect)
  else .ok ((if delta.2 ≤ 0 then lines else lines.reverse).foldl
    (fun f y => move ⟨Region.ofRect ⟨(rect.tl.1, y), (rect.br.1, y + 1)⟩, delta⟩ f) f)

/-- A rectangle is copied at once, though it is copied line by line. -/
theorem copyRect_eq {C : Type*} {fbRect rect : Rect} {delta : Point} {f g : Point → C}
    (h : copyRect fbRect rect delta f = .ok g) : g = move ⟨Region.ofRect rect, delta⟩ f := by
  unfold copyRect at h
  dsimp only at h
  split at h
  · cases h
  split at h
  · cases h
  obtain rfl := Except.ok.inj h
  have hlines := Region.listing_sorted rect.tl.2 rect.br.2 fun _ => true
  have hmem : ∀ y, y ∈ (if delta.2 ≤ 0 then Region.listing rect.tl.2 rect.br.2 fun _ => true
      else (Region.listing rect.tl.2 rect.br.2 fun _ => true).reverse) ↔
      rect.tl.2 ≤ y ∧ y < rect.br.2 := by
    intro y
    have hy := @Region.mem_listing rect.tl.2 rect.br.2 (fun _ => true) y
    rw [and_iff_left rfl] at hy
    split
    · exact hy
    · exact List.mem_reverse.trans hy
  have hsorted : (if delta.2 ≤ 0 then Region.listing rect.tl.2 rect.br.2 fun _ => true
      else (Region.listing rect.tl.2 rect.br.2 fun _ => true).reverse).Pairwise
      fun y z => if delta.2 ≤ 0 then y < z else z < y := by
    by_cases hup : delta.2 ≤ 0
    · simpa only [if_pos hup] using hlines
    · simpa only [if_neg hup] using List.pairwise_reverse.mpr hlines
  generalize (if delta.2 ≤ 0 then Region.listing rect.tl.2 rect.br.2 fun _ => true
      else (Region.listing rect.tl.2 rect.br.2 fun _ => true).reverse) = lines at *
  let line : ℤ → Move Point := fun y =>
    ⟨Region.ofRect ⟨(rect.tl.1, y), (rect.br.1, y + 1)⟩, delta⟩
  have hclean : Clean (lines.map line) := by
    refine List.pairwise_map.mpr (hsorted.imp fun {y z} hyz p hp hread => ?_)
    obtain ⟨-, htop, hbottom⟩ := Region.mem_ofRect.mp hp
    obtain ⟨-, htop', hbottom'⟩ := Region.mem_ofRect.mp hread
    rw [Prod.snd_sub] at htop' hbottom'
    dsimp only [line] at *
    split at hyz <;> omega
  have hfold : lines.foldl (fun f y => move (line y) f) f = moves (lines.map line) f := by
    rw [moves, List.foldl_map]
  refine Eq.trans hfold (hclean.moves_eq ?_ (fun p => ?_) f)
  · intro m hm
    obtain ⟨y, -, rfl⟩ := List.mem_map.mp hm
    rfl
  · constructor
    · intro hp
      obtain ⟨hx, hy⟩ := Region.mem_ofRect.mp hp
      exact ⟨line p.2, List.mem_map_of_mem ((hmem p.2).mpr hy),
        Region.mem_ofRect.mpr ⟨hx, le_rfl, Int.lt_succ p.2⟩⟩
    · rintro ⟨m, hm, hp⟩
      obtain ⟨y, hy, rfl⟩ := List.mem_map.mp hm
      obtain ⟨hx, htop, hbottom⟩ := Region.mem_ofRect.mp hp
      dsimp only at htop hbottom
      obtain rfl : y = p.2 := by omega
      exact Region.mem_ofRect.mpr ⟨hx, (hmem _).mp hy⟩

theorem copyRect_enclosed {C : Type*} {fbRect rect : Rect} {delta : Point} {f g : Point → C}
    (h : copyRect fbRect rect delta f = .ok g) :
    rect.enclosedBy fbRect ∧ (rect.translate (-delta)).enclosedBy fbRect := by
  unfold copyRect at h
  dsimp only at h
  split at h
  · cases h
  split at h
  · cases h
  exact ⟨not_not.mp ‹_›, not_not.mp ‹_›⟩

theorem copyRect_of_enclosed {C : Type*} {fbRect rect : Rect} {delta : Point}
    (hdest : rect.enclosedBy fbRect) (hsrc : (rect.translate (-delta)).enclosedBy fbRect)
    (f : Point → C) :
    copyRect fbRect rect delta f = .ok (move ⟨Region.ofRect rect, delta⟩ f) := by
  have hok : ∃ g, copyRect fbRect rect delta f = .ok g := by
    unfold copyRect
    dsimp only
    rw [if_neg (not_not.mpr hdest), if_neg (not_not.mpr hsrc)]
    exact ⟨_, rfl⟩
  obtain ⟨g, hg⟩ := hok
  rw [hg, copyRect_eq hg]

end KasmVNC.Rfb
