import Mathlib.Data.List.Basic
import Mathlib.Data.List.GetD
import Mathlib.Data.List.Nodup
import Mathlib.Data.List.TakeWhile

/-!
# The palette

A `Palette` counts colours and keeps them sorted, the most common one first: an
insertion moves the entries with lesser counts down by one slot. The hash table of
the source is an index into the entries and is left out.

The main result is `Tallies.insert`: the palette holds each colour that has been
inserted once, with the number of its pixels.
-/

namespace KasmVNC.Rfb

variable {α : Type}

structure PaletteEntry (α : Type) where
  colour : α
  numPixels : ℕ
deriving DecidableEq

/-! ## Entries -/

/-- The loop at the end of `insert`: move entries with lesser counts until the slot
for the new one is found. The entries before the slot are given last one first. -/
def place (e : PaletteEntry α) : List (PaletteEntry α) → List (PaletteEntry α) →
    List (PaletteEntry α)
  | [], after => e :: after
  | b :: before, after =>
    if b.numPixels ≥ e.numPixels then before.reverse ++ b :: e :: after
    else place e before (b :: after)

theorem place_perm (e : PaletteEntry α) :
    ∀ before after, (place e before after).Perm (e :: (before.reverse ++ after))
  | [], after => List.Perm.refl _
  | b :: before, after => by
    rw [place, List.reverse_cons, List.append_assoc]
    split
    · have hswap : (before.reverse ++ b :: e :: after).Perm
          (before.reverse ++ e :: b :: after) := (List.Perm.swap e b after).append_left _
      exact hswap.trans List.perm_middle
    · exact place_perm e before (b :: after)

/-- The most common colours first. -/
def Sorted (es : List (PaletteEntry α)) : Prop :=
  es.Pairwise fun a b => b.numPixels ≤ a.numPixels

theorem sorted_place {e : PaletteEntry α} : ∀ {before after : List (PaletteEntry α)},
    Sorted (before.reverse ++ after) → (∀ a ∈ after, a.numPixels ≤ e.numPixels) →
      Sorted (place e before after)
  | [], after, hsorted, hafter => List.pairwise_cons.mpr ⟨hafter, hsorted⟩
  | b :: before, after, hsorted, hafter => by
    rw [List.reverse_cons, List.append_assoc] at hsorted
    rw [place]
    by_cases hb : b.numPixels ≥ e.numPixels
    · rw [if_pos hb]
      obtain ⟨hbefore, htail, hcross⟩ := List.pairwise_append.mp hsorted
      obtain ⟨hfirst, hrest⟩ := List.pairwise_cons.mp htail
      have hmid : Sorted (b :: e :: after) :=
        List.pairwise_cons.mpr ⟨List.forall_mem_cons.mpr ⟨hb, hfirst⟩,
          List.pairwise_cons.mpr ⟨hafter, hrest⟩⟩
      refine List.pairwise_append.mpr ⟨hbefore, hmid, fun a ha c hc => ?_⟩
      rcases List.mem_cons.mp hc with rfl | hc
      · exact hcross a ha c List.mem_cons_self
      · rcases List.mem_cons.mp hc with rfl | hc
        · exact le_trans hb (hcross a ha b List.mem_cons_self)
        · exact hcross a ha c (List.mem_cons_of_mem b hc)
    · rw [if_neg hb]
      refine sorted_place hsorted (List.forall_mem_cons.mpr ⟨?_, hafter⟩)
      omega

variable [DecidableEq α]

/-- The number of pixels counted for a colour. -/
def pixelsOf (c : α) (es : List (PaletteEntry α)) : ℕ :=
  ((es.find? (·.colour = c)).map (·.numPixels)).getD 0

/-- Add pixels of a colour to the entries. -/
def addPixels (c : α) (n : ℕ) (es : List (PaletteEntry α)) : List (PaletteEntry α) :=
  match es.dropWhile (·.colour ≠ c) with
  | e :: after => place ⟨c, e.numPixels + n⟩ (es.takeWhile (·.colour ≠ c)).reverse after
  | [] => place ⟨c, n⟩ es.reverse []

section Entries

variable {c : α} {n : ℕ} {es : List (PaletteEntry α)}

/-- Either there is no entry for a colour, or the entries can be split at it. -/
theorem colour_cases (c : α) (es : List (PaletteEntry α)) :
    (es.dropWhile (·.colour ≠ c) = [] ∧ ∀ e ∈ es, e.colour ≠ c) ∨
      ∃ (e : PaletteEntry α) (before after : List (PaletteEntry α)),
        es = before ++ e :: after ∧ e.colour = c ∧ (∀ b ∈ before, b.colour ≠ c) ∧
        es.dropWhile (·.colour ≠ c) = e :: after ∧ es.takeWhile (·.colour ≠ c) = before := by
  have hsplit := List.takeWhile_append_dropWhile
    (p := fun e : PaletteEntry α => decide (e.colour ≠ c)) (l := es)
  have hbefore : ∀ b ∈ es.takeWhile (·.colour ≠ c), b.colour ≠ c := fun b hb =>
    of_decide_eq_true (List.mem_takeWhile_imp
      (p := fun e : PaletteEntry α => decide (e.colour ≠ c)) hb)
  cases hdrop : es.dropWhile (·.colour ≠ c) with
  | nil =>
    left
    rw [hdrop, List.append_nil] at hsplit
    rw [hsplit] at hbefore
    exact ⟨rfl, hbefore⟩
  | cons e after =>
    right
    have hhead := List.head?_dropWhile_not (fun e : PaletteEntry α => decide (e.colour ≠ c)) es
    rw [hdrop] at hsplit hhead
    exact ⟨e, _, after, hsplit.symm, by simpa using hhead, hbefore, rfl, rfl⟩

theorem pixelsOf_eq_zero (h : ∀ e ∈ es, e.colour ≠ c) : pixelsOf c es = 0 := by
  have hnone : es.find? (·.colour = c) = none :=
    List.find?_eq_none.mpr fun e he => by simpa using h e he
  rw [pixelsOf, hnone]
  rfl

theorem pixelsOf_split {e : PaletteEntry α} {before after : List (PaletteEntry α)}
    (he : e.colour = c) (hbefore : ∀ b ∈ before, b.colour ≠ c) :
    pixelsOf c (before ++ e :: after) = e.numPixels := by
  have hnone : before.find? (·.colour = c) = none :=
    List.find?_eq_none.mpr fun b hb => by simpa using hbefore b hb
  rw [pixelsOf, List.find?_append, hnone, List.find?_cons_of_pos (by simpa using he)]
  rfl

theorem addPixels_split {e : PaletteEntry α} {before after : List (PaletteEntry α)}
    (he : e.colour = c) (hbefore : ∀ b ∈ before, b.colour ≠ c) :
    addPixels c n (before ++ e :: after) = place ⟨c, e.numPixels + n⟩ before.reverse after := by
  have hpos : ∀ b ∈ before, decide (b.colour ≠ c) = true := fun b hb =>
    decide_eq_true (hbefore b hb)
  rw [addPixels, List.dropWhile_append_of_pos hpos, List.takeWhile_append_of_pos hpos,
    List.dropWhile_cons_of_neg (by simpa using he), List.takeWhile_cons_of_neg (by simpa using he),
    List.append_nil]

theorem addPixels_new (hnone : ∀ e ∈ es, e.colour ≠ c) :
    addPixels c n es = place ⟨c, n⟩ es.reverse [] := by
  rw [addPixels, List.dropWhile_eq_nil_iff.mpr fun e he => decide_eq_true (hnone e he)]

/-- The entries after an addition, in some order. -/
theorem addPixels_perm (hnodup : (es.map (·.colour)).Nodup) :
    (addPixels c n es).Perm (⟨c, pixelsOf c es + n⟩ :: es.filter (·.colour ≠ c)) := by
  rcases colour_cases c es with ⟨hdrop, hnone⟩ | ⟨e, before, after, heq, he, hbefore, hdrop, htake⟩
  · have hfilter : es.filter (·.colour ≠ c) = es :=
      List.filter_eq_self.mpr fun e hmem => by simpa using hnone e hmem
    rw [addPixels, hdrop, hfilter, pixelsOf_eq_zero hnone, Nat.zero_add]
    have hperm := place_perm (⟨c, n⟩ : PaletteEntry α) es.reverse []
    rwa [List.reverse_reverse, List.append_nil] at hperm
  · have hafter : ∀ a ∈ after, a.colour ≠ c := by
      intro a ha hcol
      rw [heq, List.map_append, List.map_cons, List.nodup_append] at hnodup
      refine (List.nodup_cons.mp hnodup.2.1).1 ?_
      rw [he, ← hcol]
      exact List.mem_map_of_mem ha
    have hfilter : es.filter (·.colour ≠ c) = before ++ after := by
      rw [heq, List.filter_append, List.filter_cons_of_neg (by simpa using he),
        List.filter_eq_self.mpr fun b hb => by simpa using hbefore b hb,
        List.filter_eq_self.mpr fun a ha => by simpa using hafter a ha]
    have hpixels : pixelsOf c es = e.numPixels := by rw [heq, pixelsOf_split he hbefore]
    rw [addPixels, hdrop, htake, hfilter, hpixels]
    have hperm := place_perm ⟨c, e.numPixels + n⟩ before.reverse after
    rwa [List.reverse_reverse] at hperm

theorem sorted_addPixels (hsorted : Sorted es) : Sorted (addPixels c n es) := by
  rcases colour_cases c es with ⟨hdrop, hnone⟩ | ⟨e, before, after, heq, -, -, hdrop, htake⟩
  · rw [addPixels, hdrop]
    refine sorted_place ?_ fun _ ha => nomatch ha
    rwa [List.reverse_reverse, List.append_nil]
  · rw [addPixels, hdrop, htake]
    rw [heq] at hsorted
    have hsub : (before ++ after).Sublist (before ++ e :: after) :=
      (List.sublist_cons_self e after).append_left before
    obtain ⟨-, htail, -⟩ := List.pairwise_append.mp hsorted
    refine sorted_place ?_ fun a ha => ?_
    · rw [List.reverse_reverse]
      exact hsorted.sublist hsub
    · exact le_trans ((List.pairwise_cons.mp htail).1 a ha) (Nat.le_add_right _ n)

end Entries

/-! ## Palettes -/

theorem noEntries_le : 0 ≤ 256 := Nat.zero_le 256

/-- `rfb::Palette` -/
structure Palette (α : Type) where
  entries : List (PaletteEntry α) := []
  nodup : (entries.map (·.colour)).Nodup := by exact List.nodup_nil
  sorted : Sorted entries := by exact List.Pairwise.nil
  size_le : entries.length ≤ 256 := by exact noEntries_le

namespace Palette

variable {p p' : Palette α} {c : α} {n : ℕ}

def colours (p : Palette α) : List α := p.entries.map (·.colour)

def size (p : Palette α) : ℕ := p.entries.length

def getColour [Inhabited α] (p : Palette α) (index : ℕ) : α := p.colours.getD index default

def getCount (p : Palette α) (index : ℕ) : ℕ := (p.entries.map (·.numPixels)).getD index 0

/-- The index of a colour; only for colours of the palette. -/
def lookup (p : Palette α) (c : α) : ℕ := p.colours.idxOf c

omit [DecidableEq α] in
theorem mem_colours : c ∈ p.colours ↔ ∃ e ∈ p.entries, e.colour = c := List.mem_map

theorem nodup_addPixels (p : Palette α) (c : α) (n : ℕ) :
    ((addPixels c n p.entries).map (·.colour)).Nodup := by
  refine (((addPixels_perm p.nodup).map _).nodup_iff).mpr ?_
  rw [List.map_cons, List.nodup_cons]
  refine ⟨fun hmem => ?_, p.nodup.sublist ((List.filter_sublist).map _)⟩
  obtain ⟨e, he, hcol⟩ := List.mem_map.mp hmem
  exact of_decide_eq_true (List.mem_filter.mp he).2 hcol

theorem length_addPixels_le (p : Palette α) {c : α} (n : ℕ)
    (h : c ∈ p.colours ∨ p.size ≠ 256) : (addPixels c n p.entries).length ≤ 256 := by
  have hle := p.size_le
  rw [(addPixels_perm p.nodup).length_eq, List.length_cons]
  rcases h with hmem | hne
  · obtain ⟨e, he, hcol⟩ := mem_colours.mp hmem
    have hlt : (p.entries.filter (·.colour ≠ c)).length < p.entries.length :=
      List.length_filter_lt_length_iff_exists.mpr ⟨e, he, by simpa using hcol⟩
    omega
  · have hfilter := List.length_filter_le (fun e : PaletteEntry α => decide (e.colour ≠ c))
      p.entries
    unfold size at hne
    omega

/-- `insert`: fails for a new colour if the palette is full. -/
def insert (p : Palette α) (c : α) (n : ℕ) : Option (Palette α) :=
  if h : c ∈ p.colours ∨ p.size ≠ 256 then
    some
      { entries := addPixels c n p.entries
        nodup := p.nodup_addPixels c n
        sorted := sorted_addPixels p.sorted
        size_le := p.length_addPixels_le n h }
  else none

theorem insert_eq_none : p.insert c n = none ↔ c ∉ p.colours ∧ p.size = 256 := by
  unfold insert
  split
  · next h =>
      refine iff_of_false (Option.some_ne_none _) fun hfull => ?_
      exact h.elim hfull.1 fun hne => hne hfull.2
  · next h =>
      rw [not_or, not_not] at h
      exact iff_of_true rfl h

theorem entries_insert (h : p.insert c n = some p') : p'.entries = addPixels c n p.entries := by
  unfold insert at h
  split at h
  · obtain rfl := Option.some.inj h
    rfl
  · cases h

theorem mem_entries_insert (h : p.insert c n = some p') {e : PaletteEntry α} :
    e ∈ p'.entries ↔
      e = ⟨c, pixelsOf c p.entries + n⟩ ∨ e ∈ p.entries ∧ e.colour ≠ c := by
  rw [entries_insert h, (addPixels_perm p.nodup).mem_iff, List.mem_cons, List.mem_filter,
    decide_eq_true_iff]

theorem mem_colours_insert (h : p.insert c n = some p') {d : α} :
    d ∈ p'.colours ↔ d = c ∨ d ∈ p.colours := by
  rw [mem_colours, mem_colours]
  constructor
  · rintro ⟨e, he, rfl⟩
    rcases (mem_entries_insert h).mp he with rfl | ⟨hold, -⟩
    · exact Or.inl rfl
    · exact Or.inr ⟨e, hold, rfl⟩
  · intro hd
    by_cases hdc : d = c
    · exact ⟨_, (mem_entries_insert h).mpr (Or.inl rfl), hdc.symm⟩
    · obtain ⟨e, he, rfl⟩ := hd.resolve_left hdc
      exact ⟨e, (mem_entries_insert h).mpr (Or.inr ⟨he, hdc⟩), rfl⟩

omit [DecidableEq α] in
theorem getColour_mem [Inhabited α] {index : ℕ} (h : index < p.size) :
    p.getColour index ∈ p.colours := by
  have hlt : index < p.colours.length := by
    rw [colours, List.length_map]
    exact h
  rw [getColour, List.getD_eq_getElem _ _ hlt]
  exact List.getElem_mem hlt

omit [DecidableEq α] in
/-- A palette of one colour. -/
theorem colours_of_size_one [Inhabited α] (h : p.size = 1) : p.colours = [p.getColour 0] := by
  have hlen : p.colours.length = 1 := (List.length_map _).trans h
  obtain ⟨a, ha⟩ := List.length_eq_one_iff.mp hlen
  rw [getColour, ha]
  rfl

omit [DecidableEq α] in
/-- A palette of two colours. -/
theorem colours_of_size_two [Inhabited α] (h : p.size = 2) :
    p.colours = [p.getColour 0, p.getColour 1] := by
  have hlen : p.colours.length = 2 := (List.length_map _).trans h
  obtain ⟨a, b, hab⟩ := List.length_eq_two.mp hlen
  rw [getColour, getColour, hab]
  rfl

theorem lookup_lt (h : c ∈ p.colours) : p.lookup c < p.size := by
  have hlt := List.idxOf_lt_length_iff.mpr h
  rwa [colours, List.length_map] at hlt

/-- Looking up the index of a colour and reading it back. -/
theorem getElem?_lookup (h : c ∈ p.colours) : p.colours[p.lookup c]? = some c := by
  have hlt := List.idxOf_lt_length_iff.mpr h
  rw [lookup, List.getElem?_eq_getElem hlt, List.getElem_idxOf hlt]

end Palette

/-! ## What a palette has counted -/

/-- The palette has counted the pixels of a list. -/
structure Tallies (p : Palette α) (pixels : List α) : Prop where
  mem_iff : ∀ c, c ∈ p.colours ↔ c ∈ pixels
  count : ∀ e ∈ p.entries, e.numPixels = pixels.countP (· = e.colour)

section Tallies

variable {p p' : Palette α} {c : α} {n : ℕ} {pixels : List α}

theorem tallies_empty : Tallies ({} : Palette α) [] :=
  ⟨(fun _ => Iff.rfl), fun _ he => nomatch he⟩

theorem Tallies.pixelsOf_eq (h : Tallies p pixels) (c : α) :
    pixelsOf c p.entries = pixels.countP (· = c) := by
  rcases colour_cases c p.entries with ⟨-, hnone⟩ | ⟨e, before, after, heq, rfl, hbefore, -, -⟩
  · have hnot : c ∉ pixels := fun hmem => by
      obtain ⟨e, he, hcol⟩ := Palette.mem_colours.mp ((h.mem_iff c).mpr hmem)
      exact hnone e he hcol
    have hzero : pixels.countP (· = c) = 0 :=
      List.countP_eq_zero.mpr fun d hd hdc => hnot (of_decide_eq_true hdc ▸ hd)
    rw [pixelsOf_eq_zero hnone, hzero]
  · have he : e ∈ p.entries := by
      rw [heq]
      exact List.mem_append_right _ List.mem_cons_self
    rw [heq, pixelsOf_split rfl hbefore, h.count e he]

/-- Counting a run of pixels of one colour. -/
theorem Tallies.insert (h : Tallies p pixels) (hn : 0 < n) (hins : p.insert c n = some p') :
    Tallies p' (pixels ++ List.replicate n c) := by
  constructor
  · intro d
    rw [Palette.mem_colours_insert hins, h.mem_iff, List.mem_append, List.mem_replicate, or_comm]
    exact or_congr_right ⟨fun hd => ⟨hn.ne', hd⟩, fun hd => hd.2⟩
  · intro e he
    rw [List.countP_append, List.countP_replicate]
    rcases (Palette.mem_entries_insert hins).mp he with rfl | ⟨hold, hne⟩
    · rw [h.pixelsOf_eq, if_pos (decide_eq_true rfl)]
    · rw [if_neg (by simpa using hne.symm), h.count e hold, Nat.add_zero]

/-- The first entry is a most common colour. -/
theorem Tallies.most_common [Inhabited α] (h : Tallies p pixels) {c : α} (hc : c ∈ pixels) :
    pixels.countP (· = c) ≤ p.getCount 0 ∧
      p.getCount 0 = pixels.countP (· = p.getColour 0) := by
  obtain ⟨e, he, rfl⟩ := Palette.mem_colours.mp ((h.mem_iff c).mpr hc)
  cases hentries : p.entries with
  | nil =>
    rw [hentries] at he
    cases he
  | cons first rest =>
    have hfirst := h.count first (by rw [hentries]; exact List.mem_cons_self)
    have hcolour : p.getColour 0 = first.colour := by
      rw [Palette.getColour, Palette.colours, hentries]
      rfl
    have hcount : p.getCount 0 = first.numPixels := by
      rw [Palette.getCount, hentries]
      rfl
    rw [hcolour, hcount, ← h.count e he]
    refine ⟨?_, hfirst⟩
    have hsorted := p.sorted
    rw [hentries] at he hsorted
    rcases List.mem_cons.mp he with rfl | hrest
    · exact le_rfl
    · exact (List.pairwise_cons.mp hsorted).1 e hrest

end Tallies

/-! ## Analysing a rectangle -/

/-- Count a run of pixels, unless there get to be too many colours. -/
def countRun (maxColours : ℕ) (p : Palette α) (colour : α) (count : ℕ) : Option (Palette α) :=
  match p.insert colour count with
  | none => none
  | some p' => if p'.size > maxColours then none else some p'

/-- The loop of `analyseRect` over the pixels: the palette and `rleRuns`. -/
def analysePixels (maxColours : ℕ) :
    α → ℕ → Palette α → ℕ → List α → Option (Palette α × ℕ)
  | colour, count, p, rleRuns, [] =>
    (countRun maxColours p colour count).map fun p' => (p', rleRuns)
  | colour, count, p, rleRuns, c :: cs =>
    if c ≠ colour then
      match countRun maxColours p colour count with
      | none => none
      | some p' => analysePixels maxColours c 1 p' (rleRuns + 1) cs
    else analysePixels maxColours colour (count + 1) p rleRuns cs

/-- `analyseRect` -/
def analyseRect (maxColours : ℕ) : List α → Option (Palette α × ℕ)
  | [] => none
  | colour :: cs => analysePixels maxColours colour 0 {} 0 (colour :: cs)

/-- The palette an encoder gets: it is cleared if the analysis fails. -/
def paletteOf (maxColours : ℕ) (pixels : List α) : Palette α :=
  ((analyseRect maxColours pixels).map Prod.fst).getD {}

section Analyse

variable {maxColours count : ℕ} {p p' : Palette α} {colour : α} {pixels : List α}

theorem countRun_spec (h : Tallies p pixels) (hpos : 0 < count)
    (hrun : countRun maxColours p colour count = some p') :
    Tallies p' (pixels ++ List.replicate count colour) ∧ p'.size ≤ maxColours := by
  unfold countRun at hrun
  cases hins : p.insert colour count with
  | none =>
    rw [hins] at hrun
    cases hrun
  | some q =>
    rw [hins] at hrun
    dsimp only at hrun
    split at hrun
    · cases hrun
    · obtain rfl := Option.some.inj hrun
      exact ⟨h.insert hpos hins, by omega⟩

theorem analysePixels_spec : ∀ {cs pixels : List α} {colour : α} {count : ℕ} {p : Palette α}
    {rleRuns : ℕ} {res : Palette α × ℕ}, Tallies p pixels → 0 < count →
    analysePixels maxColours colour count p rleRuns cs = some res →
      Tallies res.1 (pixels ++ List.replicate count colour ++ cs) ∧ res.1.size ≤ maxColours
  | [], pixels, colour, count, p, rleRuns, res, h, hpos, hres => by
    obtain ⟨q, hq, rfl⟩ := Option.map_eq_some_iff.mp hres
    rw [List.append_nil]
    exact countRun_spec h hpos hq
  | c :: cs, pixels, colour, count, p, rleRuns, res, h, hpos, hres => by
    rw [analysePixels] at hres
    by_cases hc : c ≠ colour
    · rw [if_pos hc] at hres
      cases hrun : countRun maxColours p colour count with
      | none =>
        rw [hrun] at hres
        cases hres
      | some q =>
        rw [hrun] at hres
        obtain ⟨hq, -⟩ := countRun_spec h hpos hrun
        have hrest := analysePixels_spec hq Nat.one_pos hres
        rwa [List.replicate_one, List.append_assoc _ [c], List.singleton_append] at hrest
    · rw [if_neg hc] at hres
      obtain rfl := not_not.mp hc
      have hrest := analysePixels_spec h (Nat.succ_pos count) hres
      rwa [List.replicate_succ', ← List.append_assoc, List.append_assoc _ [c],
        List.singleton_append] at hrest

/-- **The palette of a rectangle** is empty, or it has counted all its pixels. -/
theorem paletteOf_spec (maxColours : ℕ) (pixels : List α) :
    paletteOf maxColours pixels = {} ∨
      Tallies (paletteOf maxColours pixels) pixels ∧
        (paletteOf maxColours pixels).size ≤ maxColours := by
  unfold paletteOf
  cases hres : analyseRect maxColours pixels with
  | none => exact Or.inl rfl
  | some res =>
    right
    cases pixels with
    | nil => cases hres
    | cons colour cs =>
      have hfirst : analysePixels maxColours colour 1 {} 0 cs = some res := by
        rw [analyseRect, analysePixels, if_neg (not_not.mpr rfl)] at hres
        exact hres
      exact analysePixels_spec tallies_empty Nat.one_pos hfirst

end Analyse

end KasmVNC.Rfb
