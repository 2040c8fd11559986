import KasmVNC.Lib.Banded

/-!
# Combining two sets in bands

Two sets in bands are combined in one pass from top to bottom. Each step takes the lines down to
the end of one band: those that only one of the sets may have, and those of a band of each. The
bands that come out are joined where they can be, so the result is written in the only way there
is.
-/

namespace KasmVNC.Lib

variable {b c n : Band} {bs cs out : List Band} {y ybot : ℤ}

/-! ## Adding a band -/

/-- A band is added below, and joined with the last one if it goes on with the same row. -/
def addBand (bs : List Band) (n : Band) : List Band :=
  if n.row = [] then bs
  else
    match bs.getLast? with
    | some last =>
      if last.bottom = n.top ∧ last.row = n.row then
        bs.dropLast ++ [⟨last.top, n.bottom, last.row⟩]
      else bs ++ [n]
    | none => [n]

theorem rowAt_append_right (h : ∀ b ∈ bs, ¬(b.top ≤ y ∧ y < b.bottom)) :
    rowAt (bs ++ cs) y = rowAt cs y := by
  induction bs with
  | nil => rfl
  | cons b bs ih =>
    obtain ⟨hb, hbs⟩ := List.forall_mem_cons.mp h
    exact (rowAt_of_notMem hb).trans (ih hbs)

theorem rowAt_append_left (h : ∀ c ∈ cs, ¬(c.top ≤ y ∧ y < c.bottom)) :
    rowAt (bs ++ cs) y = rowAt bs y := by
  induction bs with
  | nil => exact rowAt_eq_nil h
  | cons b bs ih =>
    by_cases hin : b.top ≤ y ∧ y < b.bottom
    · rw [rowAt_of_mem hin]
      exact rowAt_of_mem hin
    · rw [rowAt_of_notMem hin]
      exact (rowAt_of_notMem hin).trans ih

theorem banded_concat : Banded (bs ++ [n]) ↔ Banded bs ∧ n.Proper ∧ ∀ b ∈ bs, b.Above n := by
  constructor
  · intro h
    obtain ⟨habove, -, hbefore⟩ := List.pairwise_append.mp h.above
    exact ⟨⟨fun b hb => h.proper b (List.mem_append_left _ hb), habove⟩,
      h.proper n (List.mem_append_right _ (List.mem_singleton_self n)),
      fun b hb => hbefore b hb n (List.mem_singleton_self n)⟩
  · rintro ⟨hbs, hn, hbefore⟩
    refine ⟨fun b hb => ?_, List.pairwise_append.mpr ⟨hbs.above, List.pairwise_singleton _ _,
      fun b hb c hc => ?_⟩⟩
    · rcases List.mem_append.mp hb with hb | hb
      · exact hbs.proper b hb
      · exact List.mem_singleton.mp hb ▸ hn
    · exact List.mem_singleton.mp hc ▸ hbefore b hb

/-- Bands down to a line, no further. -/
structure BandsTo (ybot : ℤ) (bs : List Band) : Prop where
  banded : Banded bs
  ends : ∀ b ∈ bs, b.bottom ≤ ybot

theorem BandsTo.mono (h : BandsTo ybot bs) {y : ℤ} (hle : ybot ≤ y) : BandsTo y bs :=
  ⟨h.banded, fun b hb => (h.ends b hb).trans hle⟩

theorem BandsTo.rowAt_nil (h : BandsTo ybot bs) (hy : ybot ≤ y) : rowAt bs y = [] :=
  rowAt_eq_nil fun b hb hin => absurd (hin.2.trans_le (h.ends b hb)) (not_lt.mpr hy)

/-- **A band is added.** -/
theorem BandsTo.addBand (h : BandsTo n.top bs) (hhigh : n.top < n.bottom) (hrow : Spaced n.row) :
    BandsTo n.bottom (addBand bs n) ∧
      ∀ y, rowAt (addBand bs n) y = if n.top ≤ y ∧ y < n.bottom then n.row else rowAt bs y := by
  unfold KasmVNC.Lib.addBand
  split
  · next hnil =>
      refine ⟨h.mono hhigh.le, fun y => ?_⟩
      split
      · next hin => rw [h.rowAt_nil hin.1, hnil]
      · rfl
  next hne =>
  have hn : n.Proper := ⟨hhigh, hne, hrow⟩
  -- what is above the new band
  have hlines : ∀ {cs : List Band} {m : Band}, (∀ b ∈ cs, b.bottom ≤ m.top) → m.top < m.bottom →
      ∀ y, rowAt (cs ++ [m]) y = if m.top ≤ y ∧ y < m.bottom then m.row else rowAt cs y := by
    intro cs m hends hm y
    split
    · next hin =>
        rw [rowAt_append_right fun b hb hinb =>
          absurd (hinb.2.trans_le (hends b hb)) (not_lt.mpr hin.1)]
        exact rowAt_of_mem hin
    · next hout => exact rowAt_append_left fun c hc => List.mem_singleton.mp hc ▸ hout
  cases hlast : bs.getLast? with
  | none =>
    obtain rfl := List.getLast?_eq_none_iff.mp hlast
    refine ⟨⟨banded_cons.mpr ⟨hn, fun _ hc => absurd hc List.not_mem_nil, banded_nil⟩, ?_⟩, ?_⟩
    · exact fun b hb => List.mem_singleton.mp hb ▸ le_rfl
    · exact @hlines [] n (fun b hb => absurd hb List.not_mem_nil) hhigh
  | some last =>
    obtain ⟨front, rfl⟩ : ∃ front, bs = front ++ [last] := List.getLast?_eq_some_iff.mp hlast
    obtain ⟨hfront, hproper, hbefore⟩ := banded_concat.mp h.banded
    have hends : last.bottom ≤ n.top :=
      h.ends last (List.mem_append_right _ (List.mem_singleton_self last))
    have hfrontEnds : ∀ b ∈ front, b.bottom ≤ last.top := fun b hb => (hbefore b hb).1
    have hold := hlines hfrontEnds hproper.high
    rw [List.dropLast_concat]
    dsimp only
    split
    · -- the last band goes on
      next hjoin =>
        obtain ⟨htouch, hsame⟩ := hjoin
        have hlonger : last.top < n.bottom := hproper.high.trans (htouch ▸ hhigh)
        refine ⟨⟨banded_concat.mpr ⟨hfront, ⟨hlonger, hproper.row_ne, hproper.spaced⟩,
          hbefore⟩, fun b hb => ?_⟩, fun y => ?_⟩
        · rcases List.mem_append.mp hb with hb | hb
          · exact (hfrontEnds b hb).trans hlonger.le
          · exact List.mem_singleton.mp hb ▸ le_rfl
        · rw [@hlines front ⟨last.top, n.bottom, last.row⟩ hfrontEnds hlonger, hold, ← hsame]
          dsimp only
          have hhigh' := hproper.high
          split_ifs <;> first | rfl | omega
    · next hapart =>
        refine ⟨⟨banded_concat.mpr ⟨h.banded, hn, fun b hb => ⟨h.ends b hb, fun htouch => ?_⟩⟩,
          fun b hb => ?_⟩, hlines h.ends hhigh⟩
        · rcases List.mem_append.mp hb with hb | hb
          · have hle := hfrontEnds b hb
            have hlt := hproper.high
            omega
          · rw [List.mem_singleton.mp hb] at htouch ⊢
            exact fun hsame => hapart ⟨htouch, hsame⟩
        · rcases List.mem_append.mp hb with hb | hb
          · exact (h.ends b hb).trans hhigh.le
          · exact List.mem_singleton.mp hb ▸ le_rfl

theorem addBand_last (hn : n.row ≠ []) :
    ∃ front last, addBand bs n = front ++ [last] ∧ last.bottom = n.bottom ∧ last.row = n.row := by
  unfold addBand
  rw [if_neg hn]
  split
  · split
    · next hjoin => exact ⟨_, _, rfl, rfl, hjoin.2⟩
    · exact ⟨_, _, rfl, rfl, rfl⟩
  · exact ⟨[], n, rfl, rfl, rfl⟩

theorem addBand_apart {front : List Band} {last : Band} (hn : n.row ≠ [])
    (h : last.bottom = n.top → last.row ≠ n.row) :
    addBand (front ++ [last]) n = front ++ [last] ++ [n] := by
  unfold addBand
  rw [if_neg hn, List.getLast?_concat]
  exact if_neg fun hjoin => h hjoin.1 hjoin.2

/-- A part that may be empty is added. -/
def addPart (top bottom : ℤ) (row : List (ℤ × ℤ)) (bs : List Band) : List Band :=
  if top ≠ bottom then addBand bs ⟨top, bottom, row⟩ else bs

theorem BandsTo.addPart {top bottom : ℤ} {row : List (ℤ × ℤ)} (h : BandsTo top bs)
    (hle : top ≤ bottom) (hrow : Spaced row) :
    BandsTo bottom (addPart top bottom row bs) ∧
      ∀ y, rowAt (addPart top bottom row bs) y =
        if top ≤ y ∧ y < bottom then row else rowAt bs y := by
  unfold KasmVNC.Lib.addPart
  split
  · next hne => exact BandsTo.addBand (n := ⟨top, bottom, row⟩) h (lt_of_le_of_ne hle hne) hrow
  · next heq =>
      have heq : top = bottom := not_not.mp heq
      subst heq
      exact ⟨h, fun y => (if_neg (by omega)).symm⟩

/-! ## The first band -/

/-- What is left of a set below the end of its first band, or of a band of the other set. -/
theorem Banded.left_spec {y' : ℤ} (hbs : Banded (b :: bs)) (hle : y' ≤ b.bottom) :
    let left := if b.bottom = y' then bs else b :: bs
    Banded left ∧ (∀ b' ∈ left, y' < b'.bottom) ∧ (b.bottom = y' → ∀ b' ∈ left, y' ≤ b'.top) ∧
      ∀ y, y' ≤ y → rowAt left y = rowAt (b :: bs) y := by
  obtain ⟨hb, habove, htail⟩ := banded_cons.mp hbs
  intro left
  by_cases hend : b.bottom = y'
  · have hleft : left = bs := if_pos hend
    rw [hleft]
    refine ⟨htail, fun c hc => ?_, fun _ c hc => hend ▸ (habove c hc).1, fun y hy => ?_⟩
    · rw [← hend]
      exact ((habove c hc).1).trans_lt (htail.proper c hc).high
    · exact (hbs.rowAt_tail (hend ▸ hy)).symm
  · have hleft : left = b :: bs := if_neg hend
    have hlt : y' < b.bottom := lt_of_le_of_ne hle (Ne.symm hend)
    rw [hleft]
    refine ⟨hbs, fun c hc => ?_, fun h => absurd h hend, fun _ _ => rfl⟩
    rcases List.mem_cons.mp hc with rfl | hc
    · exact hlt
    · exact hlt.trans_le ((habove c hc).1.trans (htail.proper c hc).high.le)

theorem Banded.rowAt_first (hbs : Banded (b :: bs)) (hy : y < b.bottom) :
    rowAt (b :: bs) y = if b.top ≤ y then b.row else [] := by
  split
  · next htop => exact rowAt_of_mem ⟨htop, hy⟩
  · next htop => exact hbs.rowAt_above_nil (not_le.mp htop)

/-! ## The pass -/

/-- How the lines of two sets are combined. -/
structure RowOp where
  overlap : List (ℤ × ℤ) → List (ℤ × ℤ) → List (ℤ × ℤ)
  /-- Lines that only the first set has are kept. -/
  first : Bool
  second : Bool

namespace RowOp

variable (op : RowOp)

/-- A line of the result. -/
def row (r s : List (ℤ × ℤ)) : List (ℤ × ℤ) :=
  if r = [] then if op.second then s else []
  else if s = [] then if op.first then r else []
  else op.overlap r s

/-- The rows that come out are rows. -/
def Keeps : Prop := ∀ r s, Spaced r → Spaced s → Spaced (op.overlap r s)

/-- The lines that only one of two bands may have. -/
def alone (b c : Band) (ybot : ℤ) (out : List Band) : List Band :=
  if b.top < c.top then
    if op.first then addPart (max b.top ybot) (min b.bottom c.top) b.row out else out
  else if c.top < b.top then
    if op.second then addPart (max c.top ybot) (min c.bottom b.top) c.row out else out
  else out

/-- The lines of two bands, down to where the first of them ends. -/
def lines (b c : Band) (ybot : ℤ) (out : List Band) : List Band :=
  let out := op.alone b c ybot out
  if max b.top c.top < min b.bottom c.bottom then
    addBand out ⟨max b.top c.top, min b.bottom c.bottom, op.overlap b.row c.row⟩
  else out

/-- The bands that are left when the other set has come to its end. -/
def rest (keep : Bool) (ybot : ℤ) (bs out : List Band) : List Band :=
  if keep then bs.foldl (fun out b => addBand out ⟨max b.top ybot, b.bottom, b.row⟩) out else out

def sweep : List Band → List Band → ℤ → List Band → List Band
  | b :: bs, c :: cs, ybot, out =>
    sweep (if b.bottom = min b.bottom c.bottom then bs else b :: bs)
      (if c.bottom = min b.bottom c.bottom then cs else c :: cs) (min b.bottom c.bottom)
      (op.lines b c ybot out)
  | b :: bs, [], ybot, out => rest op.first ybot (b :: bs) out
  | [], cs, ybot, out => rest op.second ybot cs out
termination_by bs cs => bs.length + cs.length
decreasing_by
  split_ifs <;> simp only [List.length_cons] <;> omega

variable {op}

/-- The first band of a set that is left has lines below the frontier, and one of the two sets
has none above it. -/
structure Ahead (ybot : ℤ) (b c : Band) : Prop where
  first : ybot < b.bottom
  second : ybot < c.bottom
  fresh : ybot ≤ b.top ∨ ybot ≤ c.top

theorem row_first {r : List (ℤ × ℤ)} (h : r ≠ []) : op.row r [] = if op.first then r else [] := by
  unfold row
  rw [if_neg h, if_pos rfl]

theorem row_second {r : List (ℤ × ℤ)} : op.row [] r = if op.second then r else [] := if_pos rfl

theorem row_none : op.row [] [] = [] := by
  rw [row_second]
  exact ite_self _

theorem row_both {r s : List (ℤ × ℤ)} (hr : r ≠ []) (hs : s ≠ []) :
    op.row r s = op.overlap r s := by
  unfold row
  rw [if_neg hr, if_neg hs]

theorem spaced_kept {keep : Bool} {r : List (ℤ × ℤ)} (h : Spaced r) :
    Spaced (if keep then r else []) := by
  split
  · exact h
  · exact spaced_nil

theorem addPart_kept {keep : Bool} {t u : ℤ} {r : List (ℤ × ℤ)} :
    (if keep then addPart t u r out else out) = addPart t u (if keep then r else []) out := by
  cases keep with
  | true => rfl
  | false => exact (ite_self _).symm

/-- A line above the ends of two bands. -/
theorem row_lines (hb : b.row ≠ []) (hc : c.row ≠ []) :
    op.row (if b.top ≤ y then b.row else []) (if c.top ≤ y then c.row else []) =
      if b.top ≤ y then
        if c.top ≤ y then op.overlap b.row c.row else if op.first then b.row else []
      else if c.top ≤ y then if op.second then c.row else [] else [] := by
  by_cases hbt : b.top ≤ y
  · by_cases hct : c.top ≤ y
    · rw [if_pos hbt, if_pos hct, if_pos hbt, if_pos hct, row_both hb hc]
    · rw [if_pos hbt, if_neg hct, if_pos hbt, if_neg hct, row_first hb]
  · by_cases hct : c.top ≤ y
    · rw [if_neg hbt, if_pos hct, if_neg hbt, if_pos hct, row_second]
    · rw [if_neg hbt, if_neg hct, if_neg hbt, if_neg hct, row_none]

/-- The lines above the bottom of a band that begins above the top of another one. -/
theorem part_spec {top bottom below : ℤ} {row : List (ℤ × ℤ)} (hout : BandsTo ybot out)
    (hrow : Spaced row) (hhigh : top < bottom) (hend : ybot < bottom) (hbelow : top < below)
    (hle : ybot ≤ below) :
    let out' := addPart (max top ybot) (min bottom below) row out
    BandsTo (min bottom below) out' ∧ ∀ y, rowAt out' y = if y < ybot then rowAt out y
      else if y < min bottom below then if top ≤ y then row else [] else [] := by
  have hmin : max top ybot ≤ min bottom below :=
    max_le (le_min hhigh.le hbelow.le) (le_min hend.le hle)
  obtain ⟨hto, hadded⟩ := (hout.mono (le_max_right top ybot)).addPart hmin hrow
  refine ⟨hto, fun y => (hadded y).trans ?_⟩
  by_cases hy : y < ybot
  · rw [if_pos hy, if_neg fun hin => absurd hy (not_lt.mpr ((le_max_right _ _).trans hin.1))]
  have hge := not_lt.mp hy
  rw [if_neg hy, hout.rowAt_nil hge]
  by_cases hin : y < min bottom below
  · rw [if_pos hin]
    exact if_congr ⟨fun h => (le_max_left _ _).trans h.1, fun h => ⟨max_le h hge, hin⟩⟩ rfl rfl
  · rw [if_neg hin, if_neg fun h => hin h.2]

/-- The lines that only one of two bands may have end where the other one begins. -/
theorem alone_spec (op : RowOp) (hb : b.Proper) (hc : c.Proper) (h : Ahead ybot b c)
    (hout : BandsTo ybot out) :
    let aloneEnd := min (max b.top c.top) (min b.bottom c.bottom)
    BandsTo aloneEnd (op.alone b c ybot out) ∧
      ∀ y, rowAt (op.alone b c ybot out) y =
        if y < ybot then rowAt out y
        else if y < aloneEnd then
          op.row (if b.top ≤ y then b.row else []) (if c.top ≤ y then c.row else [])
        else [] := by
  obtain ⟨hfirst, hsecond, hfresh⟩ := h
  have hle : ybot ≤ max b.top c.top := le_max_iff.mpr hfresh
  have hbHigh := hb.high
  have hcHigh := hc.high
  intro aloneEnd
  unfold alone
  rw [addPart_kept, addPart_kept]
  rcases lt_trichotomy b.top c.top with hlt | heq | hgt
  · -- the first band begins above the other one
    rw [max_eq_right hlt.le] at hle
    obtain ⟨hto, hrow⟩ := part_spec hout (@spaced_kept op.first _ hb.spaced) hb.high hfirst hlt hle
    have hend : aloneEnd = min b.bottom c.top := by omega
    rw [if_pos hlt, hend]
    refine ⟨hto, fun y => (hrow y).trans ?_⟩
    by_cases hy : y < min b.bottom c.top
    · have habove : ¬ c.top ≤ y := not_le.mpr (lt_min_iff.mp hy).2
      rw [row_lines hb.row_ne hc.row_ne, if_neg habove, if_neg habove]
    · rw [if_neg hy, if_neg hy]
  · rw [if_neg heq.not_lt, if_neg heq.not_gt]
    refine ⟨hout.mono (by omega), fun y => ?_⟩
    by_cases hin : y < ybot
    · rw [if_pos hin]
    rw [if_neg hin, hout.rowAt_nil (not_lt.mp hin)]
    by_cases hy : y < aloneEnd
    · have habove : ¬ b.top ≤ y ∧ ¬ c.top ≤ y := by omega
      rw [if_pos hy, row_lines hb.row_ne hc.row_ne, if_neg habove.1, if_neg habove.2]
    · rw [if_neg hy]
  · rw [max_eq_left hgt.le] at hle
    obtain ⟨hto, hrow⟩ :=
      part_spec hout (@spaced_kept op.second _ hc.spaced) hc.high hsecond hgt hle
    have hend : aloneEnd = min c.bottom b.top := by omega
    rw [if_neg hgt.not_gt, if_pos hgt, hend]
    refine ⟨hto, fun y => (hrow y).trans ?_⟩
    by_cases hy : y < min c.bottom b.top
    · have habove : ¬ b.top ≤ y := not_le.mpr (lt_min_iff.mp hy).2
      rw [row_lines hb.row_ne hc.row_ne, if_neg habove]
    · rw [if_neg hy, if_neg hy]

/-- **One step** takes all lines down to the end of a band. -/
theorem lines_spec (hop : op.Keeps) (hb : b.Proper) (hc : c.Proper) (h : Ahead ybot b c)
    (hout : BandsTo ybot out) :
    BandsTo (min b.bottom c.bottom) (op.lines b c ybot out) ∧
      ∀ y, rowAt (op.lines b c ybot out) y =
        if y < ybot then rowAt out y
        else if y < min b.bottom c.bottom then
          op.row (if b.top ≤ y then b.row else []) (if c.top ≤ y then c.row else [])
        else [] := by
  obtain ⟨hto, hrow⟩ := alone_spec op hb hc h hout
  have hle : ybot ≤ max b.top c.top := le_max_iff.mpr h.fresh
  unfold lines
  dsimp only
  by_cases hmeet : max b.top c.top < min b.bottom c.bottom
  · rw [min_eq_left hmeet.le] at hto hrow
    obtain ⟨hto', hadded⟩ :=
      BandsTo.addBand (n := ⟨max b.top c.top, min b.bottom c.bottom, op.overlap b.row c.row⟩) hto
        hmeet (hop _ _ hb.spaced hc.spaced)
    rw [if_pos hmeet]
    refine ⟨hto', fun y => (hadded y).trans ?_⟩
    dsimp only
    by_cases hy : max b.top c.top ≤ y
    · rw [if_neg (not_lt.mpr (hle.trans hy))]
      by_cases hin : y < min b.bottom c.bottom
      · obtain ⟨hbt, hct⟩ := max_le_iff.mp hy
        rw [if_pos ⟨hy, hin⟩, if_pos hin, if_pos hbt, if_pos hct, row_both hb.row_ne hc.row_ne]
      · rw [if_neg fun h => hin h.2, if_neg hin, hto.rowAt_nil hy]
    · have habove := not_le.mp hy
      rw [if_neg fun h => hy h.1, hrow, if_pos habove, if_pos (habove.trans hmeet)]
  · rw [min_eq_right (not_lt.mp hmeet)] at hto hrow
    rw [if_neg hmeet]
    exact ⟨hto, hrow⟩

/-- Bands below everything are added as they are. -/
theorem fold_fresh {f : ℤ} (hbs : Banded bs) (hout : BandsTo f out) (hle : ybot ≤ f)
    (hfresh : ∀ b ∈ bs, f ≤ b.top) :
    let out' := bs.foldl (fun out b => addBand out ⟨max b.top ybot, b.bottom, b.row⟩) out
    Banded out' ∧ ∀ y, rowAt out' y = if y < f then rowAt out y else rowAt bs y := by
  induction bs generalizing out f with
  | nil =>
    refine ⟨hout.banded, fun y => ?_⟩
    split
    · rfl
    · next hge => exact hout.rowAt_nil (not_lt.mp hge)
  | cons b bs ih =>
    obtain ⟨hb, habove, htail⟩ := banded_cons.mp hbs
    have hhigh := hb.high
    have hftop : f ≤ b.top := hfresh b List.mem_cons_self
    have htop : (⟨max b.top ybot, b.bottom, b.row⟩ : Band) = b := by
      rw [max_eq_left (hle.trans hftop)]
    obtain ⟨hto, hrow⟩ := BandsTo.addBand (n := b) (hout.mono hftop) hb.high hb.spaced
    have hrest := ih htail hto (by omega) fun c hc => (habove c hc).1
    rw [List.foldl_cons, htop]
    refine ⟨hrest.1, fun y => (hrest.2 y).trans ?_⟩
    rw [hrow]
    by_cases hy : y < b.bottom
    · rw [if_pos hy]
      by_cases htop : b.top ≤ y
      · rw [if_pos ⟨htop, hy⟩, if_neg (by omega), rowAt_of_mem ⟨htop, hy⟩]
      · rw [if_neg (by omega), hbs.rowAt_above_nil (not_le.mp htop)]
        split
        · rfl
        · next hge => exact hout.rowAt_nil (not_lt.mp hge)
    · rw [if_neg hy, if_neg (by omega), hbs.rowAt_tail (not_lt.mp hy)]

/-- No band but the first can be joined with one that is there. -/
theorem foldl_addBand (h : Banded (b :: bs)) (hle : ∀ c ∈ bs, ybot ≤ c.top) {front : List Band}
    {last : Band} (hend : last.bottom = b.bottom) (hrow : last.row = b.row) :
    bs.foldl (fun out b => addBand out ⟨max b.top ybot, b.bottom, b.row⟩) (front ++ [last]) =
      front ++ [last] ++ bs := by
  induction bs generalizing b front last with
  | nil => exact (List.append_nil _).symm
  | cons c bs ih =>
    obtain ⟨-, habove, htail⟩ := banded_cons.mp h
    obtain ⟨hc, hle⟩ := List.forall_mem_cons.mp hle
    have hadd : addBand (front ++ [last]) c = front ++ [last] ++ [c] := by
      refine addBand_apart (banded_cons.mp htail).1.row_ne ?_
      rw [hend, hrow]
      exact (habove c List.mem_cons_self).2
    rw [List.foldl_cons, max_eq_left hc, hadd, ih htail hle rfl rfl, List.append_assoc _ [c]]
    rfl

/-- The first band that is left may be joined with the last one that is there. -/
theorem rest_eq (h : Banded (b :: bs)) (hend : ybot ≤ b.bottom) :
    rest true ybot (b :: bs) out = addBand out ⟨max b.top ybot, b.bottom, b.row⟩ ++ bs := by
  obtain ⟨hb, habove, -⟩ := banded_cons.mp h
  obtain ⟨front, last, hlast, hlastEnd, hlastRow⟩ :=
    @addBand_last ⟨max b.top ybot, b.bottom, b.row⟩ out hb.row_ne
  show bs.foldl _ (addBand out _) = _
  rw [hlast]
  exact foldl_addBand h (fun c hc => hend.trans (habove c hc).1) hlastEnd hlastRow

theorem rest_spec {keep : Bool} (hbs : Banded bs) (hout : BandsTo ybot out)
    (hends : ∀ b ∈ bs, ybot < b.bottom) :
    Banded (rest keep ybot bs out) ∧
      ∀ y, rowAt (rest keep ybot bs out) y =
        if y < ybot then rowAt out y else if keep then rowAt bs y else [] := by
  have hnil : ∀ y, ¬ y < ybot → rowAt out y = [] := fun y hy => hout.rowAt_nil (not_lt.mp hy)
  cases keep with
  | false =>
    refine ⟨hout.banded, fun y => ?_⟩
    split
    · rfl
    · next hge => exact hnil y hge
  | true =>
    cases bs with
    | nil =>
      refine ⟨hout.banded, fun y => ?_⟩
      split
      · rfl
      · next hge => exact hnil y hge
    | cons b bs =>
      obtain ⟨hb, habove, htail⟩ := banded_cons.mp hbs
      have hend : ybot < b.bottom := hends b List.mem_cons_self
      have hhigh := hb.high
      -- the first band may have begun above
      obtain ⟨hto, hrow⟩ := BandsTo.addBand (n := ⟨max b.top ybot, b.bottom, b.row⟩)
        (hout.mono (le_max_right _ _)) (max_lt hhigh hend) hb.spaced
      have hrest := fold_fresh htail hto hend.le fun c hc => (habove c hc).1
      refine ⟨hrest.1, fun y => (hrest.2 y).trans ?_⟩
      dsimp only at hrow ⊢
      rw [hrow, if_pos rfl]
      by_cases hy : y < b.bottom
      · rw [if_pos hy]
        by_cases htop : b.top ≤ y
        · rw [rowAt_of_mem ⟨htop, hy⟩]
          split_ifs <;> first | rfl | omega
        · rw [if_neg (by omega), hbs.rowAt_above_nil (not_le.mp htop)]
          split
          · rfl
          · next hge => exact hnil y hge
      · rw [if_neg hy, if_neg (by omega), hbs.rowAt_tail (not_lt.mp hy)]

/-- **Every line of the result is combined of the lines of the two sets**, and the result is
written in bands. -/
theorem sweep_spec (hop : op.Keeps) (hbs : Banded bs) (hcs : Banded cs) (hout : BandsTo ybot out)
    (hbends : ∀ b ∈ bs, ybot < b.bottom) (hcends : ∀ c ∈ cs, ybot < c.bottom)
    (hfresh : (∀ b ∈ bs, ybot ≤ b.top) ∨ ∀ c ∈ cs, ybot ≤ c.top) :
    Banded (op.sweep bs cs ybot out) ∧ ∀ y, rowAt (op.sweep bs cs ybot out) y =
      if y < ybot then rowAt out y else op.row (rowAt bs y) (rowAt cs y) := by
  induction bs, cs, ybot, out using sweep.induct op with
  | case1 b bs c cs ybot out ih =>
    have hb := (banded_cons.mp hbs).1
    have hc := (banded_cons.mp hcs).1
    have hahead : Ahead ybot b c := by
      refine ⟨hbends b List.mem_cons_self, hcends c List.mem_cons_self, ?_⟩
      exact hfresh.imp (fun h => h b List.mem_cons_self) fun h => h c List.mem_cons_self
    obtain ⟨hto, hlines⟩ := lines_spec hop hb hc hahead hout
    obtain ⟨hbleft, hbends', hbfresh, hbrow⟩ := hbs.left_spec (min_le_left b.bottom c.bottom)
    obtain ⟨hcleft, hcends', hcfresh, hcrow⟩ := hcs.left_spec (min_le_right b.bottom c.bottom)
    have hfresh' : b.bottom = min b.bottom c.bottom ∨ c.bottom = min b.bottom c.bottom := by
      omega
    obtain ⟨hbanded, hrow⟩ := ih hbleft hcleft hto hbends' hcends'
      (hfresh'.imp hbfresh hcfresh)
    rw [sweep]
    refine ⟨hbanded, fun y => (hrow y).trans ?_⟩
    rw [hlines]
    by_cases hy : y < min b.bottom c.bottom
    · rw [if_pos hy, if_pos hy, hbs.rowAt_first (hy.trans_le (min_le_left _ _)),
        hcs.rowAt_first (hy.trans_le (min_le_right _ _))]
    · have hge := not_lt.mp hy
      have hybot : ¬ y < ybot := by
        have h1 := hahead.first
        have h2 := hahead.second
        omega
      rw [if_neg hy, if_neg hybot]
      exact congrArg₂ op.row (hbrow y hge) (hcrow y hge)
  | case2 b bs ybot out =>
    obtain ⟨hbanded, hrow⟩ := @rest_spec _ _ _ op.first hbs hout hbends
    rw [sweep]
    refine ⟨hbanded, fun y => (hrow y).trans ?_⟩
    show _ = if y < ybot then _ else op.row (rowAt (b :: bs) y) []
    by_cases hnil : rowAt (b :: bs) y = []
    · rw [hnil, row_none, ite_self]
    · rw [row_first hnil]
  | case3 cs ybot out =>
    obtain ⟨hbanded, hrow⟩ := @rest_spec _ _ _ op.second hcs hout hcends
    rw [sweep]
    refine ⟨hbanded, fun y => (hrow y).trans ?_⟩
    show _ = if y < ybot then _ else op.row [] (rowAt cs y)
    rw [row_second]

/-! ## Intersection, union and difference -/

def inter : RowOp := ⟨interSpans, false, false⟩

def union : RowOp := ⟨unionSpans, true, true⟩

def diff : RowOp := ⟨diffSpans, true, false⟩

theorem inter_keeps : inter.Keeps := fun _ _ hr hs => spaced_interSpans hr hs

theorem union_keeps : union.Keeps := fun _ _ hr hs => spaced_unionSpans hr hs

theorem diff_keeps : diff.Keeps := fun _ _ hr hs => spaced_diffSpans hr hs

section

variable {r s : List (ℤ × ℤ)} {x : ℤ}

theorem onRow_inter (hr : Spaced r) (hs : Spaced s) :
    OnRow (inter.row r s) x ↔ OnRow r x ∧ OnRow s x := by
  by_cases hrn : r = []
  · rw [hrn, row_second]
    exact iff_of_false not_onRow_nil fun h => not_onRow_nil h.1
  by_cases hsn : s = []
  · rw [hsn, row_first hrn]
    exact iff_of_false not_onRow_nil fun h => not_onRow_nil h.2
  rw [row_both hrn hsn]
  exact onRow_interSpans hr hs x

theorem onRow_union (hr : Spaced r) (hs : Spaced s) :
    OnRow (union.row r s) x ↔ OnRow r x ∨ OnRow s x := by
  by_cases hrn : r = []
  · rw [hrn, row_second]
    exact (or_iff_right not_onRow_nil).symm
  by_cases hsn : s = []
  · rw [hsn, row_first hrn]
    exact (or_iff_left not_onRow_nil).symm
  rw [row_both hrn hsn]
  exact onRow_unionSpans hr hs x

theorem onRow_diff (hr : Spaced r) (hs : Spaced s) :
    OnRow (diff.row r s) x ↔ OnRow r x ∧ ¬ OnRow s x := by
  by_cases hrn : r = []
  · rw [hrn, row_second]
    exact iff_of_false not_onRow_nil fun h => not_onRow_nil h.1
  by_cases hsn : s = []
  · rw [hsn, row_first hrn]
    exact (and_iff_left not_onRow_nil).symm
  rw [row_both hrn hsn]
  exact onRow_diffSpans hr hs x

end

end RowOp

end KasmVNC.Lib
