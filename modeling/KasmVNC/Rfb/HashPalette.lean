import KasmVNC.Lib.Linked
import KasmVNC.Rfb.Palette
import KasmVNC.Rfb.PixelFormat
import Mathlib.Data.Finset.Card

/-!
# The hash table of the palette

`Palette` finds a colour through a hash table with chains. The nodes of the chains know the
index of their entry, and the entries know their node, so each entry that is moved needs two
updates. `HashPalette` has all of it, and it refines `Palette`.
-/

namespace KasmVNC.Rfb

open KasmVNC.Lib

structure PaletteListNode where
  next : Option ℕ
  idx : ℕ
  colour : Pixel

/-- The members of `rfb::Palette`. A pointer to a node is an index into `list`. -/
structure HashPalette where
  numColours : ℕ
  list : ℕ → PaletteListNode
  hash : Byte → Option ℕ
  entryNode : ℕ → ℕ
  entryPixels : ℕ → ℕ

namespace HashPalette

/-! ## The operations -/

/-- The djb2 hash function, in 8 bits. -/
def genHash (colour : Pixel) : Byte :=
  [0, 8, 16, 24].foldl
    (fun hash_key i => ((hash_key <<< 5) + hash_key) ^^^ (colour >>> i).setWidth 8) 5

def size (s : HashPalette) : ℕ := s.numColours

def clear (s : HashPalette) : HashPalette := { s with numColours := 0, hash := fun _ => none }

/-- `pnode->next` -/
def next (s : HashPalette) (pnode : ℕ) : Option ℕ := (s.list pnode).next

/-- The chain of a colour is searched for it. -/
def search (s : HashPalette) (colour : Pixel) : Option ℕ × Option ℕ :=
  walk s.next (fun pnode => (s.list pnode).colour = colour) 256 none (s.hash (genHash colour))

/-- `pnode->idx = idx` -/
def setIdx (s : HashPalette) (pnode idx : ℕ) : HashPalette :=
  { s with list := Function.update s.list pnode { s.list pnode with idx } }

/-- `entry[idx] = entry[idx-1]; entry[idx].listNode->idx = idx;` -/
def moveEntry (s : HashPalette) (idx : ℕ) : HashPalette :=
  { s with
    entryNode := Function.update s.entryNode (idx + 1) (s.entryNode idx)
    entryPixels := Function.update s.entryPixels (idx + 1) (s.entryPixels idx) }.setIdx
    (s.entryNode idx) (idx + 1)

/-- The loop that moves entries with lesser pixel counts, from `idx` on. -/
def moveDown (numPixels : ℕ) : ℕ → HashPalette → ℕ × HashPalette
  | 0, s => (0, s)
  | idx + 1, s =>
    if s.entryPixels idx ≥ numPixels then (idx + 1, s)
    else moveDown numPixels idx (s.moveEntry idx)

/-- `pnode->idx = idx; entry[idx].listNode = pnode; entry[idx].numPixels = numPixels;` -/
def fill (s : HashPalette) (idx pnode numPixels : ℕ) : HashPalette :=
  { s with
    entryNode := Function.update s.entryNode idx pnode
    entryPixels := Function.update s.entryPixels idx numPixels }.setIdx pnode idx

/-- More pixels of a colour that has a node. -/
def recount (s : HashPalette) (pnode numPixels : ℕ) : HashPalette :=
  let idx := (s.list pnode).idx
  let numPixels := s.entryPixels idx + numPixels
  let (idx, s) := moveDown numPixels idx s
  let s := if idx ≠ (s.list pnode).idx then
      { s with entryNode := Function.update s.entryNode idx pnode }.setIdx pnode idx
    else s
  { s with entryPixels := Function.update s.entryPixels idx numPixels }

/-- A new node, at the end of its chain. -/
def addNode (s : HashPalette) (prev_pnode : Option ℕ) (colour : Pixel) : HashPalette :=
  let pnode := s.numColours
  let s := { s with list := Function.update s.list pnode ⟨none, 0, colour⟩ }
  match prev_pnode with
  | some prev => { s with
      list := Function.update s.list prev { s.list prev with next := some pnode } }
  | none => { s with hash := Function.update s.hash (genHash colour) (some pnode) }

/-- `numColours++` -/
def addColour (s : HashPalette) : HashPalette := { s with numColours := s.numColours + 1 }

/-- `insert`, unless it returns false. -/
def insert (s : HashPalette) (colour : Pixel) (numPixels : ℕ) : Option HashPalette :=
  match s.search colour with
  | (some pnode, _) => some (s.recount pnode numPixels)
  | (none, prev_pnode) =>
    if s.numColours = 256 then none
    else
      let (idx, s') := moveDown numPixels s.numColours (s.addNode prev_pnode colour)
      some (s'.fill idx s.numColours numPixels).addColour

/-- `lookup`, which asserts that there is a node. -/
def lookup (s : HashPalette) (colour : Pixel) : Option ℕ :=
  (s.search colour).1.map fun pnode => (s.list pnode).idx

def getColour (s : HashPalette) (index : ℕ) : Pixel := (s.list (s.entryNode index)).colour

def getCount (s : HashPalette) (index : ℕ) : ℕ := s.entryPixels index

/-! ## Frames -/

variable {s s' : HashPalette} {p : Palette Pixel} {idx pnode numPixels : ℕ} {colour : Pixel}

@[simp] theorem setIdx_next (s : HashPalette) (pnode idx : ℕ) :
    (s.setIdx pnode idx).next = s.next := by
  funext n
  by_cases h : n = pnode
  · subst h
    simp [next, setIdx]
  · simp [next, setIdx, h]

@[simp] theorem setIdx_colour (s : HashPalette) (pnode idx n : ℕ) :
    ((s.setIdx pnode idx).list n).colour = (s.list n).colour := by
  by_cases h : n = pnode
  · subst h
    simp [setIdx]
  · simp [setIdx, h]

/-- The same colours in the same chains. -/
structure SameChains (s s' : HashPalette) : Prop where
  numColours : s'.numColours = s.numColours
  hash : s'.hash = s.hash
  next : s'.next = s.next
  colour : ∀ n, (s'.list n).colour = (s.list n).colour

theorem sameChains_moveEntry (s : HashPalette) (idx : ℕ) : SameChains s (s.moveEntry idx) :=
  ⟨rfl, rfl, setIdx_next _ _ _, setIdx_colour _ _ _⟩

theorem sameChains_fill (s : HashPalette) (idx pnode numPixels : ℕ) :
    SameChains s (s.fill idx pnode numPixels) :=
  ⟨rfl, rfl, setIdx_next _ _ _, setIdx_colour _ _ _⟩

theorem SameChains.trans {s'' : HashPalette} (h : SameChains s s') (h' : SameChains s' s'') :
    SameChains s s'' :=
  ⟨h'.numColours.trans h.numColours, h'.hash.trans h.hash, h'.next.trans h.next,
    fun n => (h'.colour n).trans (h.colour n)⟩

theorem SameChains.addColour (h : SameChains s s') : SameChains s.addColour s'.addColour :=
  ⟨congrArg (· + 1) h.numColours, h.hash, h.next, h.colour⟩

theorem sameChains_moveDown (numPixels : ℕ) (idx : ℕ) (s : HashPalette) :
    SameChains s (moveDown numPixels idx s).2 := by
  induction idx generalizing s with
  | zero => exact ⟨rfl, rfl, rfl, fun _ => rfl⟩
  | succ idx ih =>
    rw [moveDown]
    split
    · exact ⟨rfl, rfl, rfl, fun _ => rfl⟩
    · exact (sameChains_moveEntry s idx).trans (ih _)

/-! ## Moving entries -/

/-- An entry with the colour of its node. -/
def row (s : HashPalette) (i : ℕ) : PaletteEntry Pixel := ⟨s.getColour i, s.getCount i⟩

theorem row_moveEntry (s : HashPalette) (idx i : ℕ) :
    (s.moveEntry idx).row i = if i = idx + 1 then s.row idx else s.row i := by
  rw [row, getColour, (sameChains_moveEntry s idx).colour, getCount]
  by_cases h : i = idx + 1
  · subst h
    simp [moveEntry, setIdx, row, getColour, getCount]
  · simp [moveEntry, setIdx, row, getColour, getCount, h]

/-- **The loop finds the slot** that the entries leave to a new one. -/
theorem place_moveDown (e : PaletteEntry Pixel) (idx k : ℕ) (s : HashPalette) :
    place e ((List.range idx).map s.row).reverse ((List.range' (idx + 1) k).map s.row) =
      let res := moveDown e.numPixels idx s
      (List.range res.1).map res.2.row ++
        e :: (List.range' (res.1 + 1) (idx + k - res.1)).map res.2.row := by
  induction idx generalizing k s with
  | zero => simp [moveDown, place]
  | succ idx ih =>
    rw [List.range_succ, List.map_append, List.reverse_append, List.map_singleton,
      List.reverse_singleton, List.singleton_append, place, moveDown]
    by_cases hle : s.entryPixels idx ≥ e.numPixels
    · rw [if_pos hle, if_pos (show (s.row idx).numPixels ≥ e.numPixels from hle),
        List.reverse_reverse]
      dsimp only
      rw [Nat.add_sub_cancel_left, List.range_succ, List.map_append, List.append_assoc]
      rfl
    · rw [if_neg hle, if_neg (show ¬ (s.row idx).numPixels ≥ e.numPixels from hle)]
      -- The entry is copied to the next index, so it is now the first one after the slot.
      have hbefore : (List.range idx).map (s.moveEntry idx).row = (List.range idx).map s.row := by
        refine List.map_congr_left fun i hi => ?_
        rw [row_moveEntry, if_neg (by have := List.mem_range.mp hi; omega)]
      have hafter : (List.range' (idx + 1) (k + 1)).map (s.moveEntry idx).row =
          s.row idx :: (List.range' (idx + 1 + 1) k).map s.row := by
        rw [List.range'_succ, List.map_cons, row_moveEntry, if_pos rfl]
        refine congrArg _ (List.map_congr_left fun i hi => ?_)
        rw [row_moveEntry, if_neg (by have := List.mem_range'_1.mp hi; omega)]
      have hrest := ih (k + 1) (s.moveEntry idx)
      rw [hbefore, hafter] at hrest
      rw [hrest, Nat.add_right_comm idx 1 k]
      rfl

/-! ## Nodes and entries -/

/-- The nodes of `R` and the first `n` entries know each other, but for one entry. -/
structure Indexed (s : HashPalette) (n hole : ℕ) (R : ℕ → Prop) : Prop where
  entries : ∀ i < n, i ≠ hole → R (s.entryNode i) ∧ (s.list (s.entryNode i)).idx = i
  nodes : ∀ m, R m →
    (s.list m).idx < n ∧ (s.list m).idx ≠ hole ∧ s.entryNode (s.list m).idx = m

variable {n hole : ℕ} {R : ℕ → Prop}

theorem Indexed.congr {R' : ℕ → Prop} (h : s.Indexed n hole R) (hR : ∀ m, R m ↔ R' m) :
    s.Indexed n hole R' :=
  ⟨fun i hi hne => ⟨(hR _).mp (h.entries i hi hne).1, (h.entries i hi hne).2⟩,
    fun m hm => h.nodes m ((hR m).mpr hm)⟩

theorem Indexed.addColour (h : s.Indexed n hole R) : s.addColour.Indexed n hole R :=
  ⟨h.entries, h.nodes⟩

/-- A node is taken out, and its entry becomes the hole. -/
theorem Indexed.remove (h : s.Indexed n n R) (hpnode : R pnode) :
    s.Indexed n (s.list pnode).idx fun m => R m ∧ m ≠ pnode := by
  constructor
  · intro i hi hne
    obtain ⟨hR, hidx⟩ := h.entries i hi hi.ne
    refine ⟨⟨hR, fun heq => ?_⟩, hidx⟩
    rw [heq] at hidx
    exact hne hidx.symm
  · rintro m ⟨hm, hne⟩
    obtain ⟨hlt, -, hnode⟩ := h.nodes m hm
    refine ⟨hlt, fun heq => hne ?_, hnode⟩
    rw [← hnode, heq, (h.nodes pnode hpnode).2.2]

/-- The hole moves up by one. -/
theorem Indexed.moveEntry (h : s.Indexed n (idx + 1) R) (hlt : idx + 1 < n) :
    (s.moveEntry idx).Indexed n idx R := by
  obtain ⟨hR, hidx⟩ := h.entries idx (by omega) (by omega)
  constructor
  · intro i hi hne
    by_cases hnext : i = idx + 1
    · subst hnext
      simp [HashPalette.moveEntry, setIdx, hR]
    · obtain ⟨hRi, hidxi⟩ := h.entries i hi hnext
      have hother : s.entryNode i ≠ s.entryNode idx := fun heq => by
        rw [heq, hidx] at hidxi
        exact hne hidxi.symm
      simp [HashPalette.moveEntry, setIdx, hnext, hother, hRi, hidxi]
  · intro m hm
    by_cases hmoved : m = s.entryNode idx
    · subst hmoved
      simp [HashPalette.moveEntry, setIdx, hlt]
    · obtain ⟨hltm, hnem, hnode⟩ := h.nodes m hm
      have hne : (s.list m).idx ≠ idx := fun heq => by
        rw [heq] at hnode
        exact hmoved hnode.symm
      simp [HashPalette.moveEntry, setIdx, hmoved, hnem, hnode, hltm, hne]

theorem Indexed.moveDown (h : s.Indexed n idx R) (hlt : idx < n) (numPixels : ℕ) :
    let res := HashPalette.moveDown numPixels idx s
    res.1 ≤ idx ∧ res.2.Indexed n res.1 R := by
  induction idx generalizing s with
  | zero => exact ⟨le_rfl, h⟩
  | succ idx ih =>
    rw [HashPalette.moveDown]
    split
    · exact ⟨le_rfl, h⟩
    · obtain ⟨hle, hmoved⟩ := ih (h.moveEntry hlt) (by omega)
      exact ⟨by omega, hmoved⟩

/-- Another node gets the hole. -/
theorem Indexed.fill (h : s.Indexed n hole R) (hlt : hole < n) (hpnode : ¬ R pnode)
    (numPixels : ℕ) :
    (s.fill hole pnode numPixels).Indexed n n fun m => R m ∨ m = pnode := by
  constructor
  · intro i hi _
    by_cases hhole : i = hole
    · subst hhole
      simp [HashPalette.fill, setIdx]
    · obtain ⟨hR, hidx⟩ := h.entries i hi hhole
      have hother : s.entryNode i ≠ pnode := fun heq => hpnode (heq ▸ hR)
      simp [HashPalette.fill, setIdx, hhole, hother, hR, hidx]
  · rintro m (hm | rfl)
    · obtain ⟨hltm, hnem, hnode⟩ := h.nodes m hm
      have hother : m ≠ pnode := fun heq => hpnode (heq ▸ hm)
      simp [HashPalette.fill, setIdx, hother, hnem, hnode, hltm, hltm.ne]
    · simp [HashPalette.fill, setIdx, hlt, hlt.ne]

/-! ## Chains -/

/-- The nodes of a hash key, in the order they were added. -/
def bucket (s : HashPalette) (key : Byte) : List ℕ :=
  (List.range s.numColours).filter fun n => genHash (s.list n).colour = key

def Chained (s : HashPalette) : Prop := ∀ key, Linked s.next (s.hash key) (s.bucket key)

theorem mem_bucket {key : Byte} {n : ℕ} :
    n ∈ s.bucket key ↔ n < s.numColours ∧ genHash (s.list n).colour = key := by
  simp [bucket]

theorem Chained.congr (h : s.Chained) (hsame : SameChains s s') : s'.Chained := by
  intro key
  have hbucket : s'.bucket key = s.bucket key := by
    simp only [bucket, hsame.numColours, hsame.colour]
  rw [hsame.hash, hsame.next, hbucket]
  exact h key

theorem length_bucket_le (hsize : s.numColours ≤ 256) (key : Byte) :
    (s.bucket key).length ≤ 256 :=
  (List.length_filter_le _ _).trans (by rwa [List.length_range])

theorem search_found (h : s.Chained) (hsize : s.numColours ≤ 256) {n : ℕ} :
    (s.search colour).1 = some n → n < s.numColours ∧ (s.list n).colour = colour := by
  intro hfound
  rw [search, walk_found (h _) (length_bucket_le hsize _)] at hfound
  exact ⟨(mem_bucket.mp (List.mem_of_find?_eq_some hfound)).1,
    by simpa using List.find?_some hfound⟩

theorem search_missing (h : s.Chained) (hsize : s.numColours ≤ 256) :
    (s.search colour).1 = none ↔ ∀ n < s.numColours, (s.list n).colour ≠ colour := by
  rw [search, walk_found (h _) (length_bucket_le hsize _), List.find?_eq_none]
  constructor
  · intro hnone n hn hcolour
    refine hnone n (mem_bucket.mpr ⟨hn, by rw [hcolour]⟩) (decide_eq_true hcolour)
  · intro hnone n hn hcolour
    exact hnone n (mem_bucket.mp hn).1 (of_decide_eq_true hcolour)

theorem search_last (h : s.Chained) (hsize : s.numColours ≤ 256)
    (hnone : ∀ n < s.numColours, (s.list n).colour ≠ colour) :
    (s.search colour).2 = (s.bucket (genHash colour)).getLast? := by
  rw [search, walk_last (h _) (length_bucket_le hsize _)
    fun n hn => decide_eq_false (hnone n (mem_bucket.mp hn).1), Option.or_none]

/-! ## A new node -/

section AddNode

variable {prev : Option ℕ}

theorem addNode_list (colour : Pixel) (hprev : ∀ m ∈ prev, m ≠ s.numColours) (n : ℕ) :
    (s.addNode prev colour).list n =
      if n = s.numColours then ⟨none, 0, colour⟩
      else if n ∈ prev then { s.list n with next := some s.numColours } else s.list n := by
  cases prev with
  | none => by_cases h : n = s.numColours <;> simp [addNode, h]
  | some m =>
    have hm := hprev m rfl
    by_cases h : n = s.numColours
    · subst h
      simp [addNode, Ne.symm hm]
    · by_cases hnm : n = m
      · subst hnm
        simp [addNode, h]
      · simp [addNode, h, hnm, Ne.symm hnm]

theorem addNode_hash (key : Byte) : (s.addNode prev colour).hash key =
    if prev = none ∧ key = genHash colour then some s.numColours else s.hash key := by
  cases prev with
  | none => by_cases h : key = genHash colour <;> simp [addNode, h]
  | some m => simp [addNode]

@[simp] theorem addNode_entryNode : (s.addNode prev colour).entryNode = s.entryNode := by
  cases prev <;> rfl

@[simp] theorem addNode_entryPixels : (s.addNode prev colour).entryPixels = s.entryPixels := by
  cases prev <;> rfl

theorem addNode_numColours : (s.addNode prev colour).numColours = s.numColours := by
  cases prev <;> rfl

/-- The node is in the bucket of its colour. -/
theorem bucket_addNode (hprev : ∀ m ∈ prev, m ≠ s.numColours) (key : Byte) :
    (s.addNode prev colour).addColour.bucket key =
      s.bucket key ++ if genHash colour = key then [s.numColours] else [] := by
  have hlist := addNode_list colour hprev
  have hold : ∀ n ∈ List.range s.numColours,
      ((s.addNode prev colour).list n).colour = (s.list n).colour := by
    intro n hn
    rw [hlist, if_neg (List.mem_range.mp hn).ne]
    split <;> rfl
  have hnew : ((s.addNode prev colour).list s.numColours).colour = colour := by
    rw [hlist, if_pos rfl]
  show (List.range ((s.addNode prev colour).numColours + 1)).filter
    (fun n => genHash ((s.addNode prev colour).list n).colour = key) = _
  rw [addNode_numColours, List.range_succ, List.filter_append, List.filter_singleton, hnew]
  refine congrArg₂ _ (List.filter_congr fun n hn => ?_) (by simp)
  rw [hold n hn]

/-- **The new node** is the last one of its chain. -/
theorem chained_addNode (h : s.Chained) (hsize : s.numColours ≤ 256)
    (hnone : ∀ n < s.numColours, (s.list n).colour ≠ colour) :
    (s.addNode (s.search colour).2 colour).addColour.Chained := by
  have hlast := search_last h hsize hnone
  generalize (s.search colour).2 = prev at hlast ⊢
  have hprev : ∀ m ∈ prev, m < s.numColours ∧ genHash (s.list m).colour = genHash colour := by
    intro m hm
    rw [hlast] at hm
    exact mem_bucket.mp (List.mem_of_getLast? hm)
  have hlist := addNode_list colour fun m hm => (hprev m hm).1.ne
  have hsame : ∀ n < s.numColours, n ∉ prev → (s.addNode prev colour).next n = s.next n := by
    intro n hn hnotPrev
    rw [next, hlist, if_neg hn.ne, if_neg hnotPrev]
    rfl
  have hend : (s.addNode prev colour).next s.numColours = none := by
    rw [next, hlist, if_pos rfl]
  intro key
  rw [bucket_addNode fun m hm => (hprev m hm).1.ne]
  show Linked (s.addNode prev colour).next ((s.addNode prev colour).hash key) _
  rw [addNode_hash]
  by_cases hkey : genHash colour = key
  · subst hkey
    rw [if_pos rfl]
    have hchain := h (genHash colour)
    have hnodup : (s.bucket (genHash colour)).Nodup := List.nodup_range.filter _
    have hlt : ∀ n ∈ s.bucket (genHash colour), n < s.numColours := fun n hn =>
      (mem_bucket.mp hn).1
    rcases List.eq_nil_or_concat' (s.bucket (genHash colour)) with hnil | ⟨init, last, hinit⟩
    · -- The chain was empty, so the hash table points to the new node.
      rw [hnil] at hlast ⊢
      rw [if_pos ⟨hlast, rfl⟩]
      exact linked_single hend
    · -- The search stopped at the last node of the chain, and that one points to the new node.
      rw [hinit] at hlast hchain hnodup hlt ⊢
      rw [List.getLast?_concat] at hlast
      subst hlast
      rw [if_neg fun hboth => Option.some_ne_none _ hboth.1]
      refine hchain.concat (fun m hm => ?_) ?_ hend
      · refine hsame m (hlt m (List.mem_append_left _ hm)) fun hm' => ?_
        obtain rfl := Option.some.inj hm'
        exact (List.nodup_append.mp hnodup).2.2 _ hm _ (List.mem_singleton_self _) rfl
      · rw [next, hlist, if_neg (hlt last (by simp)).ne, if_pos (Option.mem_some_self last)]
  · -- The node whose pointer is written is in the bucket of the colour, so no other chain has it.
    rw [if_neg hkey, List.append_nil, if_neg fun hboth => hkey hboth.2.symm]
    refine (h key).congr fun n hn => ?_
    obtain ⟨hlt, hhash⟩ := mem_bucket.mp hn
    refine hsame n hlt fun hm => hkey ?_
    rw [← hhash, (hprev n hm).2]

end AddNode

/-! ## The palette -/

/-- **The hash table refines the palette**: the entries are its entries, each of them knows its
node and the other way round, and each chain has the nodes of its hash key. -/
structure Refines (s : HashPalette) (p : Palette Pixel) : Prop where
  entries : p.entries = (List.range s.numColours).map s.row
  indexed : s.Indexed s.numColours s.numColours (· < s.numColours)
  chained : s.Chained

variable {p' : Palette Pixel}

theorem Refines.numColours_eq (h : s.Refines p) : s.numColours = p.size := by
  rw [Palette.size, h.entries, List.length_map, List.length_range]

theorem Refines.numColours_le (h : s.Refines p) : s.numColours ≤ 256 :=
  h.numColours_eq ▸ p.size_le

theorem Refines.colours_eq (h : s.Refines p) :
    p.colours = (List.range s.numColours).map s.getColour := by
  rw [Palette.colours, h.entries, List.map_map]
  rfl

/-- A colour is in the palette if a node has it. -/
theorem Refines.mem_colours (h : s.Refines p) :
    colour ∈ p.colours ↔ ∃ n < s.numColours, (s.list n).colour = colour := by
  rw [h.colours_eq]
  simp only [List.mem_map, List.mem_range]
  constructor
  · rintro ⟨i, hi, hcolour⟩
    exact ⟨s.entryNode i, (h.indexed.entries i hi hi.ne).1, hcolour⟩
  · rintro ⟨n, hn, hcolour⟩
    obtain ⟨hlt, -, hnode⟩ := h.indexed.nodes n hn
    exact ⟨_, hlt, by rw [getColour, hnode, hcolour]⟩

theorem Refines.getColour_inj (h : s.Refines p) {i j : ℕ} (hi : i < s.numColours)
    (hj : j < s.numColours) (hsame : s.getColour i = s.getColour j) : i = j := by
  have hnodup := p.nodup
  rw [show p.entries.map (·.colour) = p.colours from rfl, h.colours_eq] at hnodup
  exact List.inj_on_of_nodup_map hnodup (List.mem_range.mpr hi) (List.mem_range.mpr hj) hsame

theorem range_split {j n : ℕ} (hj : j < n) :
    List.range n = List.range j ++ j :: List.range' (j + 1) (n - 1 - j) := by
  have happend := List.range'_append_1 (s := 0) (m := j) (n := n - 1 - j + 1)
  rw [Nat.zero_add] at happend
  rw [List.range_eq_range', List.range_eq_range', ← List.range'_succ, happend,
    show j + (n - 1 - j + 1) = n by omega]

theorem row_fill (s : HashPalette) (j i pnode numPixels : ℕ) :
    (s.fill j pnode numPixels).row i =
      if i = j then ⟨(s.list pnode).colour, numPixels⟩ else s.row i := by
  rw [row, getColour, (sameChains_fill s j pnode numPixels).colour, getCount]
  by_cases h : i = j
  · subst h
    simp [fill, setIdx]
  · simp [fill, setIdx, h, row, getColour, getCount]

/-- The entries after the new one is in the slot. -/
theorem rows_fill (s : HashPalette) {j n pnode numPixels : ℕ} (hj : j < n) :
    (List.range n).map (s.fill j pnode numPixels).row = (List.range j).map s.row ++
      ⟨(s.list pnode).colour, numPixels⟩ :: (List.range' (j + 1) (n - 1 - j)).map s.row := by
  rw [range_split hj, List.map_append, List.map_cons, row_fill, if_pos rfl]
  refine congrArg₂ _ (List.map_congr_left fun i hi => ?_)
    (congrArg _ (List.map_congr_left fun i hi => ?_))
  · rw [row_fill, if_neg (List.mem_range.mp hi).ne]
  · rw [row_fill, if_neg (by have := List.mem_range'_1.mp hi; omega)]

theorem moveDown_fst_le (numPixels idx : ℕ) (s : HashPalette) :
    (moveDown numPixels idx s).1 ≤ idx := by
  induction idx generalizing s with
  | zero => exact le_rfl
  | succ idx ih =>
    rw [moveDown]
    split
    · exact le_rfl
    · exact (ih _).trans (Nat.le_succ idx)

/-- Nothing has been moved. -/
theorem moveDown_self (h : (moveDown numPixels idx s).1 = idx) :
    (moveDown numPixels idx s).2 = s := by
  cases idx with
  | zero => rfl
  | succ idx =>
    rw [moveDown] at h ⊢
    split at h
    · next hle => rw [if_pos hle]
    · have := moveDown_fst_le numPixels idx (s.moveEntry idx)
      omega

theorem moveDown_idx (numPixels : ℕ) (h : ∀ i < idx, s.entryNode i ≠ pnode) :
    ((moveDown numPixels idx s).2.list pnode).idx = (s.list pnode).idx := by
  induction idx generalizing s with
  | zero => rfl
  | succ idx ih =>
    rw [moveDown]
    split
    · rfl
    · have hne := h idx (Nat.lt_succ_self idx)
      refine (ih fun i hi => ?_).trans ?_
      · have hother : i ≠ idx + 1 := by omega
        simpa [moveEntry, setIdx, hother] using h i (by omega)
      · simp [moveEntry, setIdx, Ne.symm hne]

/-- If the entry does not move, its node and its index are right already. -/
theorem recount_eq (h : s.Refines p) (hpnode : pnode < s.numColours) :
    s.recount pnode numPixels =
      let total := s.entryPixels (s.list pnode).idx + numPixels
      let res := moveDown total (s.list pnode).idx s
      res.2.fill res.1 pnode total := by
  obtain ⟨hlt, -, hnode⟩ := h.indexed.nodes pnode hpnode
  have hbefore : ∀ i < (s.list pnode).idx, s.entryNode i ≠ pnode := fun i hi heq => by
    obtain ⟨-, hidx⟩ := h.indexed.entries i (hi.trans hlt) (hi.trans hlt).ne
    rw [heq] at hidx
    exact hi.ne hidx.symm
  have hidx := moveDown_idx (s.entryPixels (s.list pnode).idx + numPixels) hbefore
  unfold recount
  dsimp only
  rw [hidx]
  split
  · rfl
  · next hsame =>
      -- The node is not written, but it would be written with what it has.
      have hself := moveDown_self (not_not.mp hsame)
      rw [hself, not_not.mp hsame]
      have hupdate : Function.update s.entryNode (s.list pnode).idx pnode = s.entryNode := by
        nth_rewrite 2 [← hnode]
        exact Function.update_eq_self _ _
      have hlist : Function.update s.list pnode { s.list pnode with idx := (s.list pnode).idx } =
          s.list := Function.update_eq_self _ _
      unfold fill setIdx
      dsimp only
      rw [hupdate, hlist]

/-- More pixels of a colour that is known. -/
theorem Refines.recount (h : s.Refines p) (hpnode : pnode < s.numColours)
    (hcolour : (s.list pnode).colour = colour) (hins : p.insert colour numPixels = some p') :
    (s.recount pnode numPixels).Refines p' := by
  obtain ⟨hlt, -, hnode⟩ := h.indexed.nodes pnode hpnode
  -- The entry of the colour is the hole, which moves down to where it is filled.
  have hhole := (h.indexed.remove hpnode).moveDown hlt
    (s.entryPixels (s.list pnode).idx + numPixels)
  have hmoved := sameChains_moveDown (s.entryPixels (s.list pnode).idx + numPixels)
    (s.list pnode).idx s
  have hplace := place_moveDown
    ⟨colour, s.entryPixels (s.list pnode).idx + numPixels⟩ (s.list pnode).idx
    (s.numColours - 1 - (s.list pnode).idx) s
  rw [recount_eq h hpnode]
  dsimp only at hhole hplace ⊢
  generalize moveDown _ (s.list pnode).idx s = res at hhole hmoved hplace ⊢
  obtain ⟨hle, hhole⟩ := hhole
  have hsame := hmoved.trans (sameChains_fill res.2 res.1 pnode
    (s.entryPixels (s.list pnode).idx + numPixels))
  refine ⟨?_, ?_, h.chained.congr hsame⟩
  · rw [Palette.entries_insert hins, h.entries, range_split hlt, List.map_append, List.map_cons,
      hsame.numColours, rows_fill res.2 (hle.trans_lt hlt), hmoved.colour, hcolour]
    refine (addPixels_split ?_ ?_).trans (hplace.trans ?_)
    · rw [row, getColour, hnode, hcolour]
    · intro b hb hbcolour
      obtain ⟨i, hi, rfl⟩ := List.mem_map.mp hb
      have hi := List.mem_range.mp hi
      refine hi.ne (h.getColour_inj (hi.trans hlt) hlt (hbcolour.trans ?_))
      rw [getColour, hnode, hcolour]
    · have hlen : (s.list pnode).idx + (s.numColours - 1 - (s.list pnode).idx) - res.1 =
          s.numColours - 1 - res.1 := by omega
      rw [hlen]
  · rw [hsame.numColours]
    refine (hhole.fill (hle.trans_lt hlt) (fun hR => hR.2 rfl) _).congr fun m => ?_
    constructor
    · rintro (⟨hm, -⟩ | rfl)
      · exact hm
      · exact hpnode
    · intro hm
      by_cases heq : m = pnode
      · exact .inr heq
      · exact .inl ⟨hm, heq⟩

/-- A colour that has no node yet. -/
theorem Refines.addNode (h : s.Refines p) (hnone : ∀ n < s.numColours, (s.list n).colour ≠ colour)
    (hins : p.insert colour numPixels = some p') :
    let res := moveDown numPixels s.numColours (s.addNode (s.search colour).2 colour)
    (res.2.fill res.1 s.numColours numPixels).addColour.Refines p' := by
  have hchained := chained_addNode h.chained h.numColours_le hnone
  have hlast := search_last h.chained h.numColours_le hnone
  generalize (s.search colour).2 = prev at hlast hchained ⊢
  have hprev : ∀ m ∈ prev, m ≠ s.numColours := by
    intro m hm
    rw [hlast] at hm
    exact (mem_bucket.mp (List.mem_of_getLast? hm)).1.ne
  have hlist := addNode_list colour hprev
  have hold : ∀ n < s.numColours, ((s.addNode prev colour).list n).colour = (s.list n).colour ∧
      ((s.addNode prev colour).list n).idx = (s.list n).idx := by
    intro n hn
    rw [hlist, if_neg hn.ne]
    split
    · exact ⟨rfl, rfl⟩
    · exact ⟨rfl, rfl⟩
  -- The hole is the entry after the last one.
  have hindexed : (s.addNode prev colour).Indexed (s.numColours + 1) s.numColours
      (· < s.numColours) := by
    constructor
    · intro i hi hne
      have hlt : i < s.numColours := by omega
      obtain ⟨hR, hidx⟩ := h.indexed.entries i hlt hne
      rw [addNode_entryNode, (hold _ hR).2]
      exact ⟨hR, hidx⟩
    · intro m hm
      obtain ⟨hlt, hne, hnode⟩ := h.indexed.nodes m hm
      rw [addNode_entryNode, (hold m hm).2]
      exact ⟨by omega, hne, hnode⟩
  have hrows : (List.range s.numColours).map (s.addNode prev colour).row =
      (List.range s.numColours).map s.row := by
    refine List.map_congr_left fun i hi => ?_
    have hi := List.mem_range.mp hi
    have hR := (h.indexed.entries i hi hi.ne).1
    rw [row, row, getColour, getColour, getCount, getCount, addNode_entryNode,
      addNode_entryPixels, (hold _ hR).1]
  have hnew : ((s.addNode prev colour).list s.numColours).colour = colour := by
    rw [hlist, if_pos rfl]
  have hhole := hindexed.moveDown (Nat.lt_succ_self _) numPixels
  have hmoved := sameChains_moveDown numPixels s.numColours (s.addNode prev colour)
  have hplace := place_moveDown ⟨colour, numPixels⟩ s.numColours 0 (s.addNode prev colour)
  dsimp only at hhole hplace ⊢
  generalize moveDown numPixels s.numColours (s.addNode prev colour) = res
    at hhole hmoved hplace ⊢
  obtain ⟨hle, hhole⟩ := hhole
  have hlt : res.1 < s.numColours + 1 := by omega
  have hsame := hmoved.trans (sameChains_fill res.2 res.1 s.numColours numPixels)
  have hnum : (res.2.fill res.1 s.numColours numPixels).addColour.numColours =
      s.numColours + 1 := congrArg (· + 1) (hsame.numColours.trans addNode_numColours)
  refine ⟨?_, ?_, hchained.congr hsame.addColour⟩
  · rw [Palette.entries_insert hins, h.entries, hnum]
    refine (addPixels_new ?_).trans ?_
    · intro e he hcolour
      obtain ⟨i, hi, rfl⟩ := List.mem_map.mp he
      have hi := List.mem_range.mp hi
      exact hnone _ (h.indexed.entries i hi hi.ne).1 hcolour
    · rw [← hrows]
      refine hplace.trans (Eq.trans ?_ (rows_fill res.2 hlt).symm)
      rw [hmoved.colour, hnew, Nat.add_sub_cancel]
      rfl
  · rw [hnum]
    refine ((hhole.fill hlt (Nat.lt_irrefl _) numPixels).congr fun m => ?_).addColour
    omega

/-- **Inserting a colour** fails as it does in the palette, or has the same result. -/
theorem Refines.insert (h : s.Refines p) (colour : Pixel) (numPixels : ℕ) :
    (s.insert colour numPixels = none ∧ p.insert colour numPixels = none) ∨
      ∃ s' p', s.insert colour numPixels = some s' ∧ p.insert colour numPixels = some p' ∧
        s'.Refines p' := by
  unfold HashPalette.insert
  rcases hsearch : s.search colour with ⟨pnode, prev⟩
  cases pnode with
  | some pnode =>
    right
    obtain ⟨hlt, hcolour⟩ := search_found h.chained h.numColours_le (congrArg Prod.fst hsearch)
    have hmem : colour ∈ p.colours := h.mem_colours.mpr ⟨pnode, hlt, hcolour⟩
    obtain ⟨p', hins⟩ := Option.ne_none_iff_exists'.mp fun hnone =>
      (Palette.insert_eq_none (n := numPixels).mp hnone).1 hmem
    exact ⟨_, p', rfl, hins, h.recount hlt hcolour hins⟩
  | none =>
    have hnone := (search_missing h.chained h.numColours_le).mp (congrArg Prod.fst hsearch)
    have hnot : colour ∉ p.colours := fun hmem => by
      obtain ⟨n, hn, hcolour⟩ := h.mem_colours.mp hmem
      exact hnone n hn hcolour
    dsimp only
    split
    · next hfull =>
        exact .inl ⟨rfl, Palette.insert_eq_none.mpr ⟨hnot, h.numColours_eq ▸ hfull⟩⟩
    · next hfull =>
        right
        obtain ⟨p', hins⟩ := Option.ne_none_iff_exists'.mp fun hfail =>
          hfull (h.numColours_eq.trans (Palette.insert_eq_none (n := numPixels).mp hfail).2)
        have hadd := h.addNode hnone hins
        rw [hsearch] at hadd
        exact ⟨_, p', rfl, hins, hadd⟩

theorem refines_clear (s : HashPalette) : s.clear.Refines {} := by
  refine ⟨rfl, ⟨fun i hi => ?_, fun n hn => ?_⟩, fun key => rfl⟩
  · exact absurd hi (Nat.not_lt_zero i)
  · exact absurd hn (Nat.not_lt_zero n)

/-- **Looking a colour up** gives its index. -/
theorem Refines.lookup_getColour (h : s.Refines p) {i : ℕ} (hi : i < s.numColours) :
    s.lookup (s.getColour i) = some i := by
  have hnode := h.indexed.entries i hi hi.ne
  have hsome : (s.search (s.getColour i)).1 ≠ none := fun hnone =>
    (search_missing h.chained h.numColours_le).mp hnone (s.entryNode i) hnode.1 rfl
  obtain ⟨pnode, hsearch⟩ := Option.ne_none_iff_exists'.mp hsome
  obtain ⟨hlt, hcolour⟩ := search_found h.chained h.numColours_le hsearch
  obtain ⟨hidx, -, hentry⟩ := h.indexed.nodes pnode hlt
  rw [lookup, hsearch, Option.map_some, h.getColour_inj hidx hi]
  rw [getColour, hentry, hcolour]

end HashPalette

end KasmVNC.Rfb
