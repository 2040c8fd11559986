import KasmVNC.Rfb.ComparingUpdateTracker

/-!
# Scroll detection is sound

The copies that `compare` emits and the changed region that it leaves turn the old
framebuffer into the new one. While blocks are compared, the sources that are left
in the hash table are disjoint from everything the copies so far write, so each
source still has its old content when its copy is executed; and a pixel of the
framebuffer copy that was updated is either written by a copy or in a changed
block. Merging two copies does not change what the list does, since the second one
does not read what the first one writes.
-/

namespace KasmVNC.Rfb

open KasmVNC.Lib

/-! ## Merging -/

/-- The copies a client executes, in order. -/
def copyMoves (copyPassRects : List CopyPassRect) : List (Move Point) :=
  copyPassRects.map CopyPassRect.move

/-- No rectangle is turned inside out. -/
def Ordered (copyPassRects : List CopyPassRect) : Prop :=
  ∀ c ∈ copyPassRects, c.rect.tl.1 ≤ c.rect.br.1 ∧ c.rect.tl.2 ≤ c.rect.br.2

/-- The list does the same, still reads unwritten content, and is in order. -/
structure Merges (cs ds : List CopyPassRect) : Prop where
  sameEffect : SameEffect (copyMoves cs) (copyMoves ds)
  clean : Clean (copyMoves cs)
  ordered : Ordered cs

theorem copyMoves_concat (cs : List CopyPassRect) (c : CopyPassRect) :
    copyMoves (cs ++ [c]) = copyMoves cs ++ [c.move] := List.map_append

/-- Two rectangles become one if the copies join. -/
theorem merges_of_joins {cs : List CopyPassRect} {a b c : CopyPassRect}
    (hjoin : Joins a.move b.move c.move) (hclean : Clean (copyMoves (cs ++ [a] ++ [b])))
    (hordered : Ordered cs) (hc : c.rect.tl.1 ≤ c.rect.br.1 ∧ c.rect.tl.2 ≤ c.rect.br.2) :
    Merges (cs ++ [c]) (cs ++ [a] ++ [b]) := by
  have hmoves : copyMoves (cs ++ [a] ++ [b]) = copyMoves cs ++ [a.move] ++ [b.move] := by
    rw [copyMoves_concat, copyMoves_concat]
  rw [hmoves] at hclean
  refine ⟨?_, ?_, ?_⟩
  · rw [hmoves, copyMoves_concat]
    exact hjoin.sameEffect hclean
  · rw [copyMoves_concat]
    exact hjoin.clean hclean
  · intro d hd
    rcases List.mem_append.mp hd with hd | hd
    · exact hordered d hd
    · exact List.mem_singleton.mp hd ▸ hc

theorem ordered_concat {cs : List CopyPassRect} {c : CopyPassRect} :
    Ordered (cs ++ [c]) ↔
      Ordered cs ∧ c.rect.tl.1 ≤ c.rect.br.1 ∧ c.rect.tl.2 ≤ c.rect.br.2 := by
  simp only [Ordered, List.mem_append, List.mem_singleton]
  constructor
  · exact fun h => ⟨fun d hd => h d (Or.inl hd), h c (Or.inr rfl)⟩
  · rintro ⟨h, hc⟩ d (hd | rfl)
    · exact h d hd
    · exact hc

theorem eq_of_reverse_cons {α : Type*} {l rest : List α} {a : α} (h : l.reverse = a :: rest) :
    l = rest.reverse ++ [a] := by
  rw [← List.reverse_reverse l, h, List.reverse_cons]

theorem mergeLastTwo_merges {cs : List CopyPassRect} (hclean : Clean (copyMoves cs))
    (hordered : Ordered cs) : Merges (mergeLastTwo cs) cs := by
  have hself : Merges cs cs := ⟨SameEffect.refl _, hclean, hordered⟩
  unfold mergeLastTwo
  split
  · rename_i cur prev rest hreverse
    split
    · rename_i hcond
      obtain ⟨hy, hleft, hright, hsrcX, hsrcY⟩ := hcond
      have hcs : cs = rest.reverse ++ [prev] ++ [cur] := by
        rw [eq_of_reverse_cons hreverse, List.reverse_cons]
      rw [hcs] at hclean hordered ⊢
      obtain ⟨hprevs, hcur⟩ := ordered_concat.mp hordered
      obtain ⟨hrest, hprev⟩ := ordered_concat.mp hprevs
      have hheight : prev.rect.br.2 + cur.rect.height = cur.rect.br.2 := by
        rw [hy, Rect.height]
        omega
      refine merges_of_joins ⟨fun p => ?_, rfl, ?_⟩ hclean hrest ⟨hprev.1, ?_⟩
      · -- the lower rectangle begins where the upper one ends
        simp only [CopyPassRect.move, Region.mem_ofRect, hheight]
        omega
      · rw [Rect.height] at hsrcY
        refine Prod.ext ?_ ?_
        · show prev.rect.tl.1 - (prev.srcX : ℤ) = cur.rect.tl.1 - cur.srcX
          rw [hleft, hsrcX]
        · show prev.rect.tl.2 - (prev.srcY : ℤ) = cur.rect.tl.2 - cur.srcY
          omega
      · show prev.rect.tl.2 ≤ prev.rect.br.2 + cur.rect.height
        omega
    · exact hself
  · exact hself

/-- **Merging.** The new copy is added to the list, in one way or another. -/
theorem tryMerge_merges {cs : List CopyPassRect} {y blockLeft blockRight : ℤ} {m : Match}
    (hwidth : blockRight = blockLeft + ScrollBlockSize) (hordered : Ordered cs)
    (hclean : Clean (copyMoves
      (cs ++ [⟨⟨(blockLeft, y), (blockRight, y + m.lines)⟩, m.x, m.y⟩]))) :
    Merges (tryMerge cs y blockLeft blockRight m)
      (cs ++ [⟨⟨(blockLeft, y), (blockRight, y + m.lines)⟩, m.x, m.y⟩]) := by
  have hwidth : blockRight = blockLeft + 64 := hwidth
  have hnew : blockLeft ≤ blockRight ∧ y ≤ y + m.lines := by omega
  unfold tryMerge
  dsimp only
  split
  · rename_i back rest hreverse
    split
    · rename_i hcont
      obtain ⟨htop, hleft, hbottom, hsrcX, hsrcY⟩ := hcont
      rw [eq_of_reverse_cons hreverse] at hclean hordered ⊢
      obtain ⟨hrest, hback⟩ := ordered_concat.mp hordered
      rw [Rect.width] at hsrcX
      refine merges_of_joins ⟨fun p => ?_, rfl, ?_⟩ hclean hrest ⟨?_, hback.2⟩
      · simp only [CopyPassRect.move, Region.mem_ofRect]
        show ((back.rect.tl.1 ≤ p.1 ∧ p.1 < back.rect.br.1 + 64) ∧ _) ↔ _
        omega
      · refine Prod.ext ?_ ?_
        · show back.rect.tl.1 - (back.srcX : ℤ) = blockLeft - m.x
          omega
        · show back.rect.tl.2 - (back.srcY : ℤ) = y - m.y
          rw [htop, hsrcY]
      · show back.rect.tl.1 ≤ back.rect.br.1 + 64
        omega
    · rw [copyMoves_concat] at hclean
      have hold := mergeLastTwo_merges (clean_concat.mp hclean).1 hordered
      refine ⟨?_, ?_, ordered_concat.mpr ⟨hold.ordered, hnew⟩⟩
      · rw [copyMoves_concat, copyMoves_concat]
        exact hold.sameEffect.concat _
      · rw [copyMoves_concat]
        refine clean_concat.mpr ⟨hold.clean, fun p hp hwritten => ?_⟩
        exact (clean_concat.mp hclean).2 p hp ((hold.sameEffect.written _).mp hwritten)
  · rename_i hreverse
    obtain rfl := List.reverse_eq_nil_iff.mp hreverse
    exact ⟨SameEffect.refl _, hclean, ordered_concat.mpr ⟨hordered, hnew⟩⟩

/-! ## The invariant of the loops -/

section Loops

open ComparingUpdateTracker ScrollHasher

variable {C : Type*} [DecidableEq C] {dir : ScrollDirection} {hash : List C → ℕ}
  {fb : PixelBuffer C} {old : Point → C}

/-- The hash table describes the old framebuffer, without what is written. -/
structure Hashes (s : ScrollHasher C dir) (fb : PixelBuffer C) (old : Point → C)
    (moves : List (Move Point)) : Prop where
  wellFormed : s.WellFormed
  width : s.w = fb.width
  height : s.h = fb.height
  olddata : s.olddata = linear fb.width old
  fresh : s.Fresh fun x y => WrittenBy moves ((x : ℤ), (y : ℤ))

/-- The pixel is in the changed region or in a changed block. -/
def CompareState.Covered (st : CompareState C dir) (p : Point) : Prop :=
  p ∈ st.newChanged ∨ ∃ r ∈ st.changedBlocks, p ∈ Region.ofRect r

/-- The copies so far deliver new pixels, and outside them and the changed blocks the
framebuffer copy is still the old one, except for the area that is being worked on. -/
structure Consistent (fb : PixelBuffer C) (old : Point → C) (detectScroll : Bool)
    (exempt : Region) (st : CompareState C dir) : Prop where
  ordered : Ordered st.copyPassRects
  clean : Clean (copyMoves st.copyPassRects)
  reproduces : Reproduces old fb.pixel (copyMoves st.copyPassRects)
  inside : Reproduces (· ∈ Region.ofRect fb.getRect) (fun _ => True) (copyMoves st.copyPassRects)
  kept : ∀ p, ¬ WrittenBy (copyMoves st.copyPassRects) p → ¬ st.Covered p → p ∉ exempt →
    st.oldFb p = old p
  hashes : detectScroll = true → Wide fb.width →
    Hashes st.scrollHasher fb old (copyMoves st.copyPassRects)
  noCopies : detectScroll = false → st.copyPassRects = []

/-- A block as `compareRect` cuts them. -/
structure IsBlock (fb : PixelBuffer C) (dir : ScrollDirection) (detectScroll : Bool)
    (block : Rect) : Prop where
  left : 0 ≤ block.tl.1
  top : 0 ≤ block.tl.2
  right : block.br.1 ≤ fb.width
  bottom : block.br.2 ≤ fb.height
  width : block.width ≤ 64
  aligned : detectScroll = true → dir.spacing ∣ block.tl.1.toNat

omit [DecidableEq C] in
theorem linear_apply (f : Point → C) {w x : ℕ} (y : ℕ) (hx : x < w) :
    linear w f (y * w + x) = f ((x : ℤ), (y : ℤ)) := by
  have hpos : 0 < w := Nat.zero_lt_of_lt hx
  rw [linear, Nat.mul_comm, Nat.mul_add_mod, Nat.mod_eq_of_lt hx, Nat.mul_add_div hpos,
    Nat.div_eq_of_lt hx, Nat.add_zero]

omit [DecidableEq C] in
/-- Going down a line adds the width to the offset. -/
theorem offset_add (hstride : fb.stride = fb.width) {x y : ℤ} (hx : 0 ≤ x) (hy : 0 ≤ y)
    (j k : ℕ) : fb.offset (x + j, y + k) = fb.offset (x, y) + fb.width * k + j := by
  unfold PixelBuffer.offset
  dsimp only
  rw [hstride, Int.toNat_add hx (Int.natCast_nonneg j), Int.toNat_add hy (Int.natCast_nonneg k),
    Int.toNat_natCast, Int.toNat_natCast]
  ring

/-- The destination of a copy for some lines of a block. -/
def copyDest (block : Rect) (y : ℤ) (m : Match) : CopyPassRect :=
  ⟨⟨(block.tl.1, y), (block.br.1, y + m.lines)⟩, m.x, m.y⟩

section Push

variable {detectScroll : Bool} {exempt exempt' : Region} {st : CompareState C dir}
  {block : Rect} {y : ℤ} {m : Match} {maxLines : ℕ}

omit [DecidableEq C] in
/-- A genuine report at a block: what the copy reads is unwritten, and it is what the
new framebuffer has at its destination. -/
theorem copyDest_spec [DecidableEq C] (hstride : fb.stride = fb.width)
    {moves : List (Move Point)} {s : ScrollHasher C dir} (hs : Hashes s fb old moves)
    (hblock : IsBlock fb dir true block) (hwidth : block.width = 64) (hy : 0 ≤ y)
    (hm : s.Genuine fb.data (fb.offset (block.tl.1, y)) maxLines m) :
    ∀ p ∈ (copyDest block y m).move.dest,
      ¬ WrittenBy moves (p - (copyDest block y m).move.delta) ∧
        old (p - (copyDest block y m).move.delta) = fb.pixel p ∧
        p - (copyDest block y m).move.delta ∈ Region.ofRect fb.getRect := by
  obtain ⟨-, hbottom, ⟨c, hc, hx, hvalid⟩, hsame⟩ := hm
  intro p hp
  obtain ⟨⟨hleft, hright⟩, htop, hlow⟩ := Region.mem_ofRect.mp hp
  have hleft : block.tl.1 ≤ p.1 := hleft
  have hright : p.1 < block.br.1 := hright
  have htop : y ≤ p.2 := htop
  have hlow : p.2 < y + m.lines := hlow
  rw [Rect.width] at hwidth
  -- the pixel by its place in the block
  obtain ⟨j, hj⟩ : ∃ j : ℕ, p.1 = block.tl.1 + j := ⟨(p.1 - block.tl.1).toNat, by omega⟩
  obtain ⟨k, hk⟩ : ∃ k : ℕ, p.2 = y + k := ⟨(p.2 - y).toNat, by omega⟩
  have hjlt : j < 64 := by omega
  have hklt : k < m.lines := by omega
  have hsource : p - (copyDest block y m).move.delta =
      (((m.x + j : ℕ) : ℤ), ((m.y + k : ℕ) : ℤ)) := by
    refine Prod.ext ?_ ?_
    · show p.1 - (block.tl.1 - (m.x : ℤ)) = ((m.x + j : ℕ) : ℤ)
      rw [hj, Nat.cast_add]
      ring
    · show p.2 - (y - (m.y : ℤ)) = ((m.y + k : ℕ) : ℤ)
      rw [hk, Nat.cast_add]
      ring
  rw [hsource]
  have hinside : m.x + j < fb.width := by
    have hfit : c * dir.spacing + 64 ≤ s.w := position_lt hs.wellFormed.wide hc
    have hw := hs.width
    omega
  refine ⟨?_, ?_, ?_⟩
  · have hfresh := hs.fresh (m.y + k, c) (mem_positions.mpr ⟨by omega, hc⟩) (hvalid k hklt)
      j hjlt
    rw [hx]
    exact hfresh
  · have hline := segment_apply (of_decide_eq_true (hsame k hklt)) hjlt
    rw [hs.width, hs.olddata, Nat.add_assoc _ m.x, linear_apply old _ hinside] at hline
    rw [← hline]
    have hp : p = (block.tl.1 + j, y + k) := Prod.ext hj hk
    rw [hp, PixelBuffer.pixel, offset_add hstride hblock.left hy]
  · have hheight := hs.height
    refine Region.mem_ofRect.mpr ⟨⟨Int.natCast_nonneg _, ?_⟩, Int.natCast_nonneg _, ?_⟩
    · exact Int.ofNat_lt.mpr hinside
    · exact Int.ofNat_lt.mpr (by omega)

omit [DecidableEq C] in
theorem Consistent.pushChanged (h : Consistent fb old detectScroll exempt st) {r : Rect}
    (hexempt : ∀ p ∈ exempt, p ∈ exempt' ∨ p ∈ Region.ofRect r) :
    Consistent fb old detectScroll exempt' (st.pushChanged r) := by
  refine ⟨h.ordered, h.clean, h.reproduces, h.inside, fun p hwritten hcovered hp => ?_, h.hashes,
    h.noCopies⟩
  have hout : p ∉ Region.ofRect r := fun hr =>
    hcovered (Or.inr ⟨r, List.mem_append_right _ List.mem_cons_self, hr⟩)
  refine h.kept p hwritten (fun hc => hcovered ?_) fun he => (hexempt p he).elim hp hout
  exact hc.imp id fun ⟨b, hb, hpb⟩ => ⟨b, List.mem_append_left _ hb, hpb⟩

/-- A copy for some lines of a block. -/
theorem Consistent.pushCopy (hstride : fb.stride = fb.width)
    (h : Consistent fb old true exempt st) (hwide : Wide fb.width)
    (hblock : IsBlock fb dir true block) (hwidth : block.width = 64) (hy : 0 ≤ y)
    (hm : st.scrollHasher.Genuine fb.data (fb.offset (block.tl.1, y)) maxLines m)
    (hexempt : ∀ p ∈ exempt,
      p ∈ exempt' ∨ p ∈ Region.ofRect ⟨(block.tl.1, y), (block.br.1, y + m.lines)⟩) :
    Consistent fb old true exempt' (st.pushCopy block y m) := by
  have hs := h.hashes rfl hwide
  have hspec := copyDest_spec hstride hs hblock hwidth hy hm
  have hclean : Clean (copyMoves (st.copyPassRects ++ [copyDest block y m])) := by
    rw [copyMoves_concat]
    exact clean_concat.mpr ⟨h.clean, fun p hp => (hspec p hp).1⟩
  have hright : block.br.1 = block.tl.1 + (64 : ℤ) := by
    rw [Rect.width] at hwidth
    omega
  have hmerge : Merges (st.pushCopy block y m).copyPassRects
      (st.copyPassRects ++ [copyDest block y m]) := tryMerge_merges hright h.ordered hclean
  have hwritten : ∀ p, WrittenBy (copyMoves (st.pushCopy block y m).copyPassRects) p ↔
      WrittenBy (copyMoves st.copyPassRects) p ∨ p ∈ (copyDest block y m).move.dest := by
    intro p
    rw [← writtenBy_concat, ← copyMoves_concat]
    exact hmerge.sameEffect.written p
  refine ⟨hmerge.ordered, hmerge.clean, ?_, ?_, fun p hout hcovered hp => ?_, fun _ _ => ?_,
    fun hdetect => nomatch hdetect⟩
  · refine Reproduces.congr ?_ hmerge.sameEffect
    rw [copyMoves_concat] at hclean ⊢
    exact h.reproduces.concat hclean fun p hp => (hspec p hp).2.1
  · refine Reproduces.congr ?_ hmerge.sameEffect
    rw [copyMoves_concat] at hclean ⊢
    exact h.inside.concat hclean fun p hp => eq_true (hspec p hp).2.2
  · obtain ⟨hold, hdest⟩ := not_or.mp (mt (hwritten p).mpr hout)
    exact h.kept p hold hcovered fun he => (hexempt p he).elim hp hdest
  · have hfresh : (st.pushCopy block y m).scrollHasher.Fresh fun x' y' =>
        WrittenBy (copyMoves (st.pushCopy block y m).copyPassRects) ((x' : ℤ), (y' : ℤ)) := by
      refine hs.fresh.invalidate hs.wellFormed.wide (hblock.aligned rfl) fun x' y' hpixel => ?_
      rcases (hwritten _).mp hpixel with hold | hdest
      · exact Or.inl hold
      · obtain ⟨⟨hl, hr⟩, ht, hb⟩ := Region.mem_ofRect.mp hdest
        have hl : block.tl.1 ≤ x' := hl
        have hr : (x' : ℤ) < block.br.1 := hr
        have ht : y ≤ y' := ht
        have hb : (y' : ℤ) < y + m.lines := hb
        have hleft := hblock.left
        refine Or.inr ⟨?_, ?_⟩
        · show block.tl.1.toNat ≤ x' ∧ x' < block.tl.1.toNat + 64
          omega
        · omega
    have hother : (st.pushCopy block y m).scrollHasher = { st.scrollHasher with
        hashtable := (st.pushCopy block y m).scrollHasher.hashtable } := by
      unfold CompareState.pushCopy invalidate
      cases dir with
      | vert => rfl
      | bothDir => rfl
    refine ⟨?_, ?_, ?_, ?_, hfresh⟩
    · rw [hother]
      exact ⟨hs.wellFormed.wide, hs.wellFormed.indexed, hs.wellFormed.offset⟩
    · rw [hother]
      exact hs.width
    · rw [hother]
      exact hs.height
    · rw [hother]
      exact hs.olddata

end Push

/-! ## One block -/

section Block

variable {detectScroll : Bool} {exempt : Region} {st : CompareState C dir} {block : Rect}

omit [DecidableEq C] in
theorem Consistent.offsetOnly (h : Consistent fb old detectScroll exempt st)
    {s' : ScrollHasher C dir} (hs' : st.scrollHasher.OffsetOnly s') :
    Consistent fb old detectScroll exempt { st with scrollHasher := s' } := by
  refine ⟨h.ordered, h.clean, h.reproduces, h.inside, h.kept, fun hdetect hwide => ?_, h.noCopies⟩
  have hs := h.hashes hdetect hwide
  obtain ⟨x, y, rfl, hx⟩ := hs'
  exact ⟨⟨hs.wellFormed.wide, hs.wellFormed.indexed, fun hdir => hx hdir
    (hs.wellFormed.offset hdir)⟩, hs.width, hs.height, hs.olddata, hs.fresh⟩

/-- The lines of a block from `y` on. -/
def restOf (block : Rect) (y : ℤ) : Region := Region.ofRect ⟨(block.tl.1, y), block.br⟩

theorem restOf_split {block : Rect} {y y' : ℤ} {p : Point} (hp : p ∈ restOf block y) :
    p ∈ restOf block y' ∨
      p ∈ Region.ofRect ⟨(block.tl.1, y), (block.br.1, min y' block.br.2)⟩ := by
  simp only [restOf, Region.mem_ofRect] at hp ⊢
  omega

variable (hstride : fb.stride = fb.width)
  (hhash : ∀ l : List C, l.length = ScrollBlockSize → hash l ≠ 0)

include hstride hhash

omit hstride in
/-- What the search for a line or a block leaves and reports. -/
theorem Consistent.findBestMatch (hwide : Wide fb.width) (hblock : IsBlock fb dir true block)
    {exempt : Region} (h : Consistent fb old true exempt st) (y : ℤ) {maxLines : ℕ}
    (hlines : 0 < maxLines) :
    let found := st.scrollHasher.findBestMatch fb.data hash (fb.offset (block.tl.1, y))
      maxLines block.tl.1.toNat y.toNat
    Consistent fb old true exempt { st with scrollHasher := found.1 } ∧
      ∀ m, found.2 = some m →
        found.1.Genuine fb.data (fb.offset (block.tl.1, y)) maxLines m := by
  intro found
  obtain ⟨hoffset, hgenuine⟩ := @findBestMatch_spec _ _ st.scrollHasher _ fb.data hash
    (fb.offset (block.tl.1, y)) maxLines block.tl.1.toNat y.toNat (h.hashes rfl hwide).wellFormed
    (hblock.aligned rfl) hlines (hhash _ (segment_length fb.data _))
  refine ⟨h.offsetOnly hoffset, fun m hm => ?_⟩
  exact (hgenuine m hm).offsetOnly hoffset

/-- The loop over the lines leaves no line out. -/
theorem Consistent.matchLines (hwide : Wide fb.width) (hblock : IsBlock fb dir true block)
    (hwidth : block.width = 64) {y : ℤ} (hy : 0 ≤ y)
    (h : Consistent fb old true (restOf block y) st) :
    Consistent fb old true ∅ (matchLines hash fb block y st) ∧
      (Rfb.matchLines hash fb block y st).oldFb = st.oldFb := by
  induction hn : (block.br.2 - y).toNat using Nat.strong_induction_on generalizing y st with
  | h n ih =>
    unfold Rfb.matchLines
    split
    · rename_i hlt
      obtain ⟨hfound, hgenuine⟩ := h.findBestMatch hhash hwide hblock y
        (Int.pos_iff_toNat_pos.mp (sub_pos.mpr hlt))
      dsimp only
      generalize st.scrollHasher.findBestMatch fb.data hash (fb.offset (block.tl.1, y))
        (block.br.2 - y).toNat block.tl.1.toNat y.toNat = found at *
      obtain ⟨s', report⟩ := found
      cases report with
      | none =>
        have hnext : Consistent fb old true (restOf block (y + 4)) _ :=
          hfound.pushChanged fun p hp => restOf_split hp
        exact ih _ (by omega) (by omega) hnext rfl
      | some m =>
        have hm := hgenuine m rfl
        have hlines := hm.lines_le
        have hpos := m.pos
        have hbottom : min (y + m.lines) block.br.2 = y + m.lines := by omega
        have hexempt : ∀ p ∈ restOf block y, p ∈ restOf block (y + m.lines) ∨
            p ∈ Region.ofRect ⟨(block.tl.1, y), (block.br.1, y + m.lines)⟩ := by
          intro p hp
          have hsplit := @restOf_split block y (y + m.lines) p hp
          rwa [hbottom] at hsplit
        have hnext := hfound.pushCopy hstride hwide hblock hwidth hy hm hexempt
        exact ih _ (by omega) (by omega) hnext rfl
    · rename_i hge
      refine ⟨⟨h.ordered, h.clean, h.reproduces, h.inside, fun p hout hcovered _ => ?_, h.hashes,
        h.noCopies⟩, rfl⟩
      refine h.kept p hout hcovered fun hp => hge ?_
      obtain ⟨-, hlow, hhigh⟩ := Region.mem_ofRect.mp hp
      exact lt_of_le_of_lt hlow hhigh

/-- A changed block ends up in copies or in the changed blocks. -/
theorem Consistent.scrollBlock (hblock : IsBlock fb dir true block) {y : ℤ}
    (hy : block.tl.2 ≤ y) (h : Consistent fb old true (restOf block y) st) :
    Consistent fb old true ∅ (scrollBlock hash fb block y st) ∧
      (Rfb.scrollBlock hash fb block y st).oldFb = st.oldFb := by
  have hall : ∀ p ∈ restOf block y, p ∈ (∅ : Region) ∨ p ∈ Region.ofRect block := by
    intro p hp
    obtain ⟨hx, hlow, hhigh⟩ := Region.mem_ofRect.mp hp
    exact Or.inr (Region.mem_ofRect.mpr ⟨hx, hy.trans hlow, hhigh⟩)
  unfold Rfb.scrollBlock
  split
  · exact ⟨h.pushChanged hall, rfl⟩
  · rename_i hsmall
    have hmax := hblock.width
    have hwidth : block.width = 64 := le_antisymm hmax (not_lt.mp hsmall)
    have hwide : Wide fb.width := by
      refine ⟨?_, fb.width_lt⟩
      have hleft := hblock.left
      have hright := hblock.right
      rw [Rect.width] at hwidth
      show 64 ≤ fb.width
      omega
    have htop := hblock.top
    dsimp only
    by_cases hheight : block.height = ScrollBlockSize
    · rw [if_pos hheight]
      obtain ⟨hoffset, hgenuine⟩ := @findBlock_spec _ _ st.scrollHasher _ fb.data hash
        (fb.offset block.tl) block.tl.1.toNat block.tl.2.toNat (h.hashes rfl hwide).wellFormed
        (hblock.aligned rfl) hhash
      have hfound := h.offsetOnly hoffset
      generalize st.scrollHasher.findBlock fb.data hash (fb.offset block.tl) block.tl.1.toNat
        block.tl.2.toNat = found at *
      obtain ⟨s', report⟩ := found
      cases report with
      | none => exact hfound.matchLines hstride hhash hwide hblock hwidth (htop.trans hy)
      | some m =>
        obtain ⟨hm, hlines⟩ := hgenuine m rfl
        have hbottom : block.tl.2 + m.lines = block.br.2 := by
          rw [hlines, ← hheight, Rect.height]
          omega
        refine ⟨hfound.pushCopy hstride hwide hblock hwidth htop (hm.offsetOnly hoffset)
          fun p hp => ?_, rfl⟩
        rw [hbottom]
        exact hall p hp
    · rw [if_neg hheight]
      exact h.matchLines hstride hhash hwide hblock hwidth (htop.trans hy)

omit hhash hstride in
/-- The lines before the first changed one are the same. -/
theorem eq_of_firstChanged {oldFb : Point → C} {k : ℕ} {p : Point}
    (hsame : ∀ i < k, lineDiffers fb oldFb block (block.tl.2 + i) = false)
    (hp : p ∈ Region.ofRect block) (hk : p.2 < block.tl.2 + k) : oldFb p = fb.pixel p := by
  obtain ⟨⟨hleft, hright⟩, htop, -⟩ := Region.mem_ofRect.mp hp
  have hline := hsame (p.2 - block.tl.2).toNat (by omega)
  have hy : block.tl.2 + ((p.2 - block.tl.2).toNat : ℤ) = p.2 := by omega
  have hx : block.tl.1 + ((p.1 - block.tl.1).toNat : ℤ) = p.1 := by omega
  have hpixel := List.any_eq_false.mp hline (p.1 - block.tl.1).toNat
    (List.mem_range.mpr (by rw [Rect.width]; omega))
  rw [hy, hx] at hpixel
  simpa using hpixel

/-- What comparing a part of the screen does: the invariant is kept, the part agrees
with the new framebuffer, and what agreed before still does. -/
structure Compared (fb : PixelBuffer C) (old : Point → C) (detectScroll : Bool)
    (part : Region) (st st' : CompareState C dir) : Prop where
  consistent : Consistent fb old detectScroll ∅ st'
  part : ∀ p ∈ part, st'.oldFb p = fb.pixel p
  keeps : ∀ p, st.oldFb p = fb.pixel p → st'.oldFb p = fb.pixel p

theorem compareBlock_spec (skipCursorArea : Region) (hblock : IsBlock fb dir detectScroll block)
    (h : Consistent fb old detectScroll ∅ st) :
    Compared fb old detectScroll (Region.ofRect block) st
      (compareBlock hash fb detectScroll skipCursorArea block st) := by
  unfold compareBlock
  split
  · rename_i hnone
    have hsame : ∀ p ∈ Region.ofRect block, st.oldFb p = fb.pixel p := by
      intro p hp
      obtain ⟨-, htop, hlow⟩ := Region.mem_ofRect.mp hp
      refine eq_of_firstChanged (fun i (hi : i < block.height.toNat) => ?_) hp
        (by rw [Rect.height]; omega)
      simpa using List.find?_range_eq_none.mp hnone i hi
    split
    · exact ⟨h.pushChanged fun p hp => Or.inl hp, hsame, fun _ hp => hp⟩
    · exact ⟨h, hsame, fun _ hp => hp⟩
  · rename_i i hsome
    obtain ⟨-, -, hbefore⟩ := List.find?_range_eq_some.mp hsome
    dsimp only
    -- the rest of the block is copied into the framebuffer copy
    generalize hst : ({ st with oldFb := (paint (restOf block (block.tl.2 + i)) fb.pixel
        st.oldFb) } : CompareState C dir) = st'
    have hcopied : Consistent fb old detectScroll (restOf block (block.tl.2 + i)) st' := by
      subst hst
      refine ⟨h.ordered, h.clean, h.reproduces, h.inside, fun p hout hcovered hp => ?_, h.hashes,
        h.noCopies⟩
      exact (paint_of_notMem hp).trans (h.kept p hout hcovered (Finset.notMem_empty p))
    have hkeeps : ∀ p, st.oldFb p = fb.pixel p → st'.oldFb p = fb.pixel p := by
      intro p hp
      subst hst
      by_cases hin : p ∈ restOf block (block.tl.2 + i)
      · exact paint_of_mem hin
      · exact (paint_of_notMem hin).trans hp
    have hpart : ∀ p ∈ Region.ofRect block, st'.oldFb p = fb.pixel p := by
      intro p hp
      by_cases hin : p ∈ restOf block (block.tl.2 + i)
      · subst hst
        exact paint_of_mem hin
      · refine hkeeps p (eq_of_firstChanged (fun k hk => by simpa using hbefore k hk) hp ?_)
        by_contra hrest
        obtain ⟨hx, htop, hlow⟩ := Region.mem_ofRect.mp hp
        exact hin (Region.mem_ofRect.mpr ⟨hx, not_lt.mp hrest, hlow⟩)
    have hall : ∀ p ∈ restOf block (block.tl.2 + i),
        p ∈ (∅ : Region) ∨ p ∈ Region.ofRect block := by
      intro p hp
      obtain ⟨hx, hlow, hhigh⟩ := Region.mem_ofRect.mp hp
      have hlow : block.tl.2 + i ≤ p.2 := hlow
      exact Or.inr (Region.mem_ofRect.mpr ⟨hx, by omega, hhigh⟩)
    have hst' : ({ st with oldFb := (paint (Region.ofRect ⟨(block.tl.1, block.tl.2 + (i : ℤ)),
        block.br⟩) fb.pixel st.oldFb) } : CompareState C dir) = st' := hst
    rw [hst']
    split
    · exact ⟨hcopied.pushChanged hall, hpart, hkeeps⟩
    · rename_i hscroll
      obtain rfl : detectScroll = true := by
        cases detectScroll with
        | true => rfl
        | false => exact absurd rfl hscroll
      obtain ⟨hdone, hsame⟩ := hcopied.scrollBlock hstride hhash hblock (by omega)
      exact ⟨hdone, fun p hp => hsame ▸ hpart p hp, fun p hp => hsame ▸ hkeeps p hp⟩

end Block

/-! ## One rectangle -/

section Rectangle

variable {detectScroll : Bool} {st : CompareState C dir}

omit [DecidableEq C] in
theorem Compared.trans {r r' : Region} {st st' st'' : CompareState C dir}
    (h : Compared fb old detectScroll r st st') (h' : Compared fb old detectScroll r' st' st'') :
    Compared fb old detectScroll (r ∪ r') st st'' := by
  refine ⟨h'.consistent, fun p hp => ?_, fun p hp => h'.keeps p (h.keeps p hp)⟩
  rcases Finset.mem_union.mp hp with hp | hp
  · exact h'.keeps p (h.part p hp)
  · exact h'.part p hp

omit [DecidableEq C] in
theorem mem_orderedRects {rects : List Rect} {p : Point} :
    p ∈ orderedRects rects ↔ ∃ r ∈ rects, p ∈ Region.ofRect r := by
  have hfold : ∀ (rects : List Rect) (region : Region),
      p ∈ rects.foldl (fun region r => region ∪ Region.ofRect r) region ↔
        p ∈ region ∨ ∃ r ∈ rects, p ∈ Region.ofRect r := by
    intro rects
    induction rects with
    | nil => simp
    | cons r rects ih =>
      intro region
      simp [ih, or_assoc]
  rw [orderedRects, hfold]
  simp

omit [DecidableEq C] in
/-- The blocks of an aligned rectangle inside the framebuffer. -/
theorem isBlock_of_mem_blocks {r block : Rect} (hr : r.enclosedBy fb.getRect)
    (haligned : detectScroll = true → (dir.spacing : ℤ) ∣ r.tl.1) (h : block ∈ blocks r) :
    IsBlock fb dir detectScroll block := by
  obtain ⟨top, htop, hblock⟩ := List.mem_flatMap.mp h
  obtain ⟨left, hleft, rfl⟩ := List.mem_map.mp hblock
  obtain ⟨⟨hx, hx'⟩, hdvd⟩ := mem_strides (by decide) hleft
  obtain ⟨⟨hy, hy'⟩, -⟩ := mem_strides (by decide) htop
  obtain ⟨hrl, hrt, hrr, hrb⟩ := hr
  have hrl : 0 ≤ r.tl.1 := hrl
  have hrt : 0 ≤ r.tl.2 := hrt
  have hrr : r.br.1 ≤ fb.width := hrr
  have hrb : r.br.2 ≤ fb.height := hrb
  refine ⟨?_, ?_, ?_, ?_, ?_, fun hdetect => ?_⟩
  · show 0 ≤ left
    omega
  · show 0 ≤ top
    omega
  · show min (left + 64) r.br.1 ≤ fb.width
    omega
  · show min r.br.2 (top + 64) ≤ fb.height
    omega
  · show min (left + 64) r.br.1 - left ≤ 64
    omega
  · have hspacing : (dir.spacing : ℤ) ∣ left := by
      have hblocks : (dir.spacing : ℤ) ∣ 64 := by cases dir <;> decide
      have hsum := Int.dvd_add (hblocks.trans hdvd) (haligned hdetect)
      rwa [sub_add_cancel] at hsum
    have hnat : ((left.toNat : ℕ) : ℤ) = left := Int.toNat_of_nonneg (by omega)
    exact Int.natCast_dvd_natCast.mp (hnat.symm ▸ hspacing)

omit [DecidableEq C] in
theorem mem_blocks_cover {r : Rect} {p : Point} (hp : p ∈ Region.ofRect r) :
    ∃ block ∈ blocks r, p ∈ Region.ofRect block := by
  obtain ⟨⟨hx, hx'⟩, hy, hy'⟩ := Region.mem_ofRect.mp hp
  obtain ⟨left, hleft, hl, hl'⟩ := @exists_mem_strides BlockSize _ _ _ (by decide) hx hx'
  obtain ⟨top, htop, ht, ht'⟩ := @exists_mem_strides BlockSize _ _ _ (by decide) hy hy'
  refine ⟨_, List.mem_flatMap.mpr ⟨top, htop, List.mem_map.mpr ⟨left, hleft, rfl⟩⟩, ?_⟩
  refine Region.mem_ofRect.mpr ⟨⟨hl, ?_⟩, ht, ?_⟩
  · exact lt_min hl' hx'
  · exact lt_min hy' ht'

variable (hstride : fb.stride = fb.width)
  (hhash : ∀ l : List C, l.length = ScrollBlockSize → hash l ≠ 0)

include hstride hhash

/-- The blocks of a list, one after another. -/
theorem compareBlock_foldl (skipCursorArea : Region) :
    ∀ {rects : List Rect} {st : CompareState C dir},
      (∀ r ∈ rects, IsBlock fb dir detectScroll r) → Consistent fb old detectScroll ∅ st →
      Compared fb old detectScroll (orderedRects rects) st
        (rects.foldl (fun st r => compareBlock hash fb detectScroll skipCursorArea r st) st)
  | [], st, _, h => ⟨h, fun p hp => absurd hp (Finset.notMem_empty p), fun _ hp => hp⟩
  | r :: rects, st, hrects, h => by
    obtain ⟨hr, hrects⟩ := List.forall_mem_cons.mp hrects
    have hfirst := compareBlock_spec hstride hhash skipCursorArea hr h
    have hboth := hfirst.trans (compareBlock_foldl skipCursorArea hrects hfirst.consistent)
    refine ⟨hboth.consistent, fun p hp => hboth.part p ?_, hboth.keeps⟩
    obtain ⟨s, hs, hps⟩ := mem_orderedRects.mp hp
    rcases List.mem_cons.mp hs with rfl | hs
    · exact Finset.mem_union_left _ hps
    · exact Finset.mem_union_right _ (mem_orderedRects.mpr ⟨s, hs, hps⟩)

omit hstride hhash in
/-- The state at the beginning of a rectangle: no blocks are changed yet. -/
def CompareState.fresh (st : CompareState C dir) : CompareState C dir :=
  { st with changedBlocks := [] }

theorem compareBlocks_spec (skipCursorArea : Region) {r : Rect} (hr : r.enclosedBy fb.getRect)
    (haligned : detectScroll = true → (dir.spacing : ℤ) ∣ r.tl.1)
    (h : Consistent fb old detectScroll ∅ st.fresh) :
    Compared fb old detectScroll (Region.ofRect r) st.fresh
      (compareBlocks hash fb detectScroll skipCursorArea r st).fresh := by
  have hfold := compareBlock_foldl hstride hhash skipCursorArea
    (fun block hblock => isBlock_of_mem_blocks hr haligned hblock) h
  unfold compareBlocks
  dsimp only
  have hfresh : ({ st with changedBlocks := [] } : CompareState C dir) = st.fresh := rfl
  rw [hfresh]
  generalize (blocks r).foldl (fun st block => compareBlock hash fb detectScroll skipCursorArea
    block st) st.fresh = st' at *
  have hcover : ∀ p ∈ Region.ofRect r, p ∈ orderedRects (blocks r) := fun p hp =>
    mem_orderedRects.mpr (mem_blocks_cover hp)
  have hc := hfold.consistent
  split
  · refine ⟨⟨hc.ordered, hc.clean, hc.reproduces, hc.inside, fun p hout hcovered hp => ?_, hc.hashes,
      hc.noCopies⟩, fun p hp => hfold.part p (hcover p hp), hfold.keeps⟩
    refine hc.kept p hout (fun hold => hcovered (Or.inl (Finset.mem_union.mpr ?_))) hp
    exact hold.imp id fun hblock => mem_orderedRects.mpr hblock
  · rename_i hnone
    refine ⟨⟨hc.ordered, hc.clean, hc.reproduces, hc.inside, fun p hout hcovered hp => ?_, hc.hashes,
      hc.noCopies⟩, fun p hp => hfold.part p (hcover p hp), hfold.keeps⟩
    refine hc.kept p hout (fun hold => hcovered ?_) hp
    rcases hold with hnew | ⟨b, hb, -⟩
    · exact Or.inl hnew
    · rw [not_not.mp hnone] at hb
      exact absurd hb List.not_mem_nil

omit [DecidableEq C] hstride hhash in
theorem mem_alignRect {r : Rect} {p : Point} (hp : p ∈ Region.ofRect r) :
    p ∈ Region.ofRect (alignRect dir detectScroll r) := by
  unfold alignRect
  split
  · obtain ⟨⟨hleft, hright⟩, hy⟩ := Region.mem_ofRect.mp hp
    refine Region.mem_ofRect.mpr ⟨⟨?_, hright⟩, hy⟩
    show r.tl.1 - r.tl.1 % 64 ≤ p.1
    omega
  · exact hp

omit [DecidableEq C] hstride hhash in
theorem dvd_alignRect (r : Rect) :
    detectScroll = true → (dir.spacing : ℤ) ∣ (alignRect dir detectScroll r).tl.1 := by
  intro hdetect
  cases dir with
  | vert =>
    rw [hdetect]
    exact Int.dvd_self_sub_emod
  | bothDir => exact one_dvd _

omit [DecidableEq C] hstride hhash in
/-- Moving the left side back to a block boundary does not leave the framebuffer. -/
theorem alignRect_enclosed {r : Rect} (hr : r.enclosedBy fb.getRect) :
    (alignRect dir detectScroll r).enclosedBy fb.getRect := by
  unfold alignRect
  split
  · obtain ⟨hleft, hrest⟩ := hr
    refine ⟨?_, hrest⟩
    have hleft : 0 ≤ r.tl.1 := hleft
    show 0 ≤ r.tl.1 - r.tl.1 % 64
    omega
  · exact hr

/-- **One rectangle.** The part inside the framebuffer is compared, cropped or not. -/
theorem compareRect_spec (skipCursorArea : Region) (inr : Rect)
    (h : Consistent fb old detectScroll ∅ st.fresh) :
    Compared fb old detectScroll (Region.ofRect inr ∩ Region.ofRect fb.getRect) st.fresh
      (compareRect hash fb detectScroll skipCursorArea inr st).fresh := by
  unfold compareRect
  dsimp only
  have hin : ∀ p ∈ Region.ofRect inr ∩ Region.ofRect fb.getRect,
      p ∈ Region.ofRect (alignRect dir detectScroll inr) ∧ p ∈ Region.ofRect fb.getRect := by
    intro p hp
    exact (Finset.mem_inter.mp hp).imp mem_alignRect id
  split
  · split
    · have hsafe : ((alignRect dir detectScroll inr).intersect fb.getRect).enclosedBy
          fb.getRect := by
        rename_i hsome
        rw [Bool.not_eq_true', Rect.isEmpty, Bool.or_eq_false_iff] at hsome
        obtain ⟨hx, hy⟩ := hsome
        have hx := of_decide_eq_false hx
        have hy := of_decide_eq_false hy
        simp only [Rect.intersect] at hx hy
        refine ⟨le_max_right _ _, le_max_right _ _, ?_, ?_⟩
        · simp only [Rect.intersect]
          omega
        · simp only [Rect.intersect]
          omega
      have hcompared := compareBlocks_spec hstride hhash skipCursorArea
        (alignRect_enclosed hsafe) (dvd_alignRect _) h
      refine ⟨hcompared.consistent, fun p hp => hcompared.part p ?_, hcompared.keeps⟩
      exact mem_alignRect (Region.mem_ofRect_intersect.mpr (hin p hp))
    · rename_i hnone
      refine ⟨h, fun p hp => absurd ?_ hnone, fun _ hp => hp⟩
      obtain ⟨⟨hx, hx'⟩, hy, hy'⟩ :=
        Region.mem_ofRect.mp (Region.mem_ofRect_intersect.mpr (hin p hp))
      rw [Bool.not_eq_true', Rect.isEmpty, Bool.or_eq_false_iff]
      exact ⟨decide_eq_false (by omega), decide_eq_false (by omega)⟩
  · rename_i hinside
    have hcompared := compareBlocks_spec hstride hhash skipCursorArea (not_not.mp hinside)
      (dvd_alignRect inr) h
    exact ⟨hcompared.consistent, fun p hp => hcompared.part p (hin p hp).1, hcompared.keeps⟩

theorem compareRects_spec (skipCursorArea : Region) :
    ∀ {rects : List Rect} {st : CompareState C dir},
      Consistent fb old detectScroll ∅ st.fresh →
      Compared fb old detectScroll (orderedRects rects ∩ Region.ofRect fb.getRect) st.fresh
        (compareRects hash fb detectScroll skipCursorArea rects st).fresh
  | [], st, h => ⟨h, fun p hp =>
    absurd (Finset.mem_inter.mp hp).1 (Finset.notMem_empty p), fun _ hp => hp⟩
  | r :: rects, st, h => by
    have hfirst := compareRect_spec hstride hhash skipCursorArea r h
    have hboth := hfirst.trans (@compareRects_spec skipCursorArea rects _ hfirst.consistent)
    refine ⟨hboth.consistent, fun p hp => hboth.part p ?_, hboth.keeps⟩
    obtain ⟨hrects, hfb⟩ := Finset.mem_inter.mp hp
    obtain ⟨s, hs, hps⟩ := mem_orderedRects.mp hrects
    rcases List.mem_cons.mp hs with rfl | hs
    · exact Finset.mem_union_left _ (Finset.mem_inter.mpr ⟨hps, hfb⟩)
    · exact Finset.mem_union_right _
        (Finset.mem_inter.mpr ⟨mem_orderedRects.mpr ⟨s, hs, hps⟩, hfb⟩)

end Rectangle

end Loops

/-! ## The comparison -/

section Comparison

open ComparingUpdateTracker

variable {C : Type*} [DecidableEq C] {dir : ScrollDirection}

omit [DecidableEq C] in
theorem wantsScroll_off {settings : ScrollSettings} (h : settings.detectScrolling = false)
    (fb : PixelBuffer C) (skip : Bool) (rects : List Rect) :
    wantsScroll settings fb skip rects = false := by
  simp [wantsScroll, h]

omit [DecidableEq C] in
/-- Before the first rectangle nothing is copied and the framebuffer copy is old. -/
theorem consistent_start {hash : List C → ℕ} (fb : PixelBuffer C) (old : Point → C)
    (detectScroll : Bool) (s : ScrollHasher C dir) :
    Consistent fb old detectScroll ∅
      (⟨old, if detectScroll then s.calcHashes hash (linear fb.width old) fb.width fb.height
        else s, [], ∅, []⟩ : CompareState C dir).fresh := by
  have hnone : ∀ p : Point, ¬ WrittenBy (copyMoves []) p := by
    rintro p ⟨m, hm, -⟩
    exact absurd hm List.not_mem_nil
  refine ⟨?_, ?_, ?_, ?_, fun _ _ _ _ => rfl, fun hdetect hwide => ?_, fun _ => rfl⟩
  · intro c hc
    exact absurd hc List.not_mem_nil
  · exact List.Pairwise.nil
  · intro p hp
    exact absurd hp (hnone p)
  · intro p hp
    exact absurd hp (hnone p)
  · subst hdetect
    exact ⟨ScrollHasher.wellFormed_calcHashes s hash _ _ _ hwide, rfl, rfl, rfl,
      ScrollHasher.fresh_of_not_written _ fun _ _ => hnone _⟩

/-- What a comparison leaves: the copies and the changed region make the new framebuffer of
the old one, and the copies read inside the framebuffer. -/
theorem compareWith_spec {hash : List C → ℕ}
    (hhash : ∀ l : List C, l.length = ScrollBlockSize → hash l ≠ 0)
    (settings : ScrollSettings) (fb : PixelBuffer C) (hstride : fb.stride = fb.width)
    (skipScrollDetection : Bool) (skipCursorArea : Region)
    (c : ComparingUpdateTracker C dir) {old : Point → C}
    (hchanged : ∀ p ∈ Region.ofRect fb.getRect, p ∉ c.tracker.changed → old p = fb.pixel p) :
    let c' := (c.compareWith settings hash fb skipScrollDetection skipCursorArea old).1
    (∀ p ∈ Region.ofRect fb.getRect, p ∉ c'.tracker.changed →
      old (origins (copyMoves c'.copyPassRects) p) = fb.pixel p ∧
        origins (copyMoves c'.copyPassRects) p ∈ Region.ofRect fb.getRect) ∧
      (∀ p ∈ Region.ofRect fb.getRect, c'.oldFb p = fb.pixel p) ∧
      (settings.detectScrolling = false ∨ c'.detectScroll = false → c'.copyPassRects = []) := by
  unfold compareWith
  dsimp only
  have hoff := fun h => @wantsScroll_off C settings h fb skipScrollDetection
    (c.tracker.changed.getRects true true)
  have hcover : ∀ p ∈ c.tracker.changed, p ∈ orderedRects (c.tracker.changed.getRects true true) :=
    fun p hp => mem_orderedRects.mpr (Region.mem_getRects.mpr hp)
  generalize c.tracker.changed.getRects true true = rects at *
  generalize wantsScroll settings fb skipScrollDetection rects = detectScroll at *
  have hstart := @consistent_start C dir hash fb old detectScroll c.scrollHasher
  have hdone := @compareRects_spec C _ dir hash fb old detectScroll hstride hhash
    skipCursorArea rects _ hstart
  generalize compareRects hash fb detectScroll skipCursorArea rects _ = st at *
  obtain ⟨hconsistent, hpart, hkeeps⟩ := hdone
  have hnew : ∀ p ∈ Region.ofRect fb.getRect, st.oldFb p = fb.pixel p := by
    intro p hp
    by_cases hold : p ∈ c.tracker.changed
    · exact hpart p (Finset.mem_inter.mpr ⟨hcover p hold, hp⟩)
    · exact hkeeps p (hchanged p hp hold)
  refine ⟨fun p hp hp' => ?_, hnew, fun hnone => hconsistent.noCopies (hnone.elim hoff id)⟩
  by_cases hwritten : WrittenBy (copyMoves st.copyPassRects) p
  · exact ⟨hconsistent.reproduces p hwritten, of_eq_true (hconsistent.inside p hwritten)⟩
  · rw [origins_of_notWritten hwritten, ← hnew p hp]
    refine ⟨?_, hp⟩
    refine (hconsistent.kept p hwritten (fun hcovered => ?_) (Finset.notMem_empty p)).symm
    rcases hcovered with hin | ⟨r, hr, -⟩
    · exact hp' hin
    · exact absurd hr List.not_mem_nil

/-- **Scroll detection is sound.** Whatever the copies and the changed blocks that the
comparison finds: the copies on the old framebuffer, one after another, and then the
new changed region give the new framebuffer, and the framebuffer copy is the new one. -/
theorem scroll_detection_sound {hash : List C → ℕ}
    (hhash : ∀ l : List C, l.length = ScrollBlockSize → hash l ≠ 0)
    (settings : ScrollSettings) (fb : PixelBuffer C) (hstride : fb.stride = fb.width)
    (skipScrollDetection : Bool) (skipCursorArea : Region)
    (c : ComparingUpdateTracker C dir) (henabled : c.enabled = true)
    (hfirst : c.firstCompare = false) {old : Point → C} (hold : c.applyCopied fb = .ok old)
    (hchanged : ∀ p ∈ Region.ofRect fb.getRect, p ∉ c.tracker.changed → old p = fb.pixel p) :
    ∃ c' altered, c.compare settings hash fb skipScrollDetection skipCursorArea =
        .ok (c', altered) ∧
      (∀ p ∈ Region.ofRect fb.getRect,
        paint c'.tracker.changed fb.pixel (moves (copyMoves c'.copyPassRects) old) p =
          fb.pixel p) ∧
      (∀ p ∈ Region.ofRect fb.getRect, c'.oldFb p = fb.pixel p) ∧
      (settings.detectScrolling = false ∨ c'.detectScroll = false → c'.copyPassRects = []) := by
  obtain ⟨hcopies, hnew, hnone⟩ := compareWith_spec hhash settings fb hstride skipScrollDetection
    skipCursorArea c hchanged
  refine ⟨(c.compareWith settings hash fb skipScrollDetection skipCursorArea old).1,
    (c.compareWith settings hash fb skipScrollDetection skipCursorArea old).2, ?_, ?_, hnew, hnone⟩
  · simp only [ComparingUpdateTracker.compare, henabled, hfirst, hold]
    rfl
  · intro p hp
    by_cases hp' : p ∈ (c.compareWith settings hash fb skipScrollDetection skipCursorArea
        old).1.tracker.changed
    · exact paint_of_mem hp'
    · rw [paint_of_notMem hp', moves_apply]
      exact (hcopies p hp hp').1

omit [DecidableEq C] in
theorem applyCopied_of_empty {c : ComparingUpdateTracker C dir} (h : c.tracker.copied = ∅)
    (fb : PixelBuffer C) : c.applyCopied fb = .ok c.oldFb := by
  unfold applyCopied
  dsimp only
  rw [h, Region.getRects_eq_nil.mpr rfl]
  rfl

/-- A screen of 64 x 80 pixels whose lines are numbered, scrolled by one line. -/
@[irreducible] def scrolledFb : PixelBuffer ℕ := ⟨64, 80, 64, fun o => o / 64 + 1, by decide⟩

/-- The tracker before the scroll was seen: all of the screen has changed. -/
def beforeScroll : ComparingUpdateTracker ℕ .vert where
  tracker := ⟨Region.ofRect scrolledFb.getRect, ∅, (0, 0), false⟩
  oldFb := fun p => p.2.toNat
  firstCompare := false
  enabled := true
  detectScroll := false
  scrollHasher :=
    ⟨0, 0, fun _ => 0, fun _ => 0, fun _ => 0, fun _ => 0, 0, 0, fun _ => 0⟩
  copyPassRects := []

theorem scrolledFb_stride : scrolledFb.stride = scrolledFb.width := by
  unfold scrolledFb
  rfl

theorem beforeScroll_changed :
    beforeScroll.tracker.changed = Region.ofRect scrolledFb.getRect := by
  rw [beforeScroll]

theorem scroll_detection_sound_scrolled :
    ∃ c' altered, beforeScroll.compare ⟨true, 25⟩ (fun _ => 1) scrolledFb false ∅ =
        .ok (c', altered) ∧
      (∀ p ∈ Region.ofRect scrolledFb.getRect,
        paint c'.tracker.changed scrolledFb.pixel
          (moves (copyMoves c'.copyPassRects) beforeScroll.oldFb) p = scrolledFb.pixel p) ∧
      (∀ p ∈ Region.ofRect scrolledFb.getRect, c'.oldFb p = scrolledFb.pixel p) ∧
      ((⟨true, 25⟩ : ScrollSettings).detectScrolling = false ∨ c'.detectScroll = false →
        c'.copyPassRects = []) :=
  scroll_detection_sound (fun _ _ => one_ne_zero) ⟨true, 25⟩ scrolledFb scrolledFb_stride false ∅
    beforeScroll rfl rfl (applyCopied_of_empty rfl scrolledFb)
    fun _ hp hout => absurd hp (beforeScroll_changed ▸ hout)

end Comparison

end KasmVNC.Rfb
