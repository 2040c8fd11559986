import Mathlib.Data.List.Pairwise
import Mathlib.Data.Set.Insert
import Mathlib.Tactic.Tauto

/-!
# Red-black trees driven by a comparison

An ordered map keeps its entries in a red-black tree. The tree knows the keys only through a
comparison `less`: a search goes to the right where the key of a node is less, a new node
goes where the search for its key ended, and the rebalancing keeps the order of the nodes.

Whatever the comparison is, a search finds nothing but entries of the tree, with a key that
is neither less nor greater. If the comparison is a strict weak order of the keys, it finds
every entry, and an assignment changes no other.
-/

namespace KasmVNC.Lib

universe u v

inductive Colour where
  | red
  | black
deriving DecidableEq

inductive RedBlack (K : Type u) (V : Type v) where
  | leaf
  | node (colour : Colour) (left : RedBlack K V) (key : K) (value : V) (right : RedBlack K V)

namespace RedBlack

variable {K : Type u} {V : Type v}

/-- The entries from the left to the right. -/
def toList : RedBlack K V → List (K × V)
  | leaf => []
  | node _ l k v r => l.toList ++ (k, v) :: r.toList

theorem mem_toList_node {c : Colour} {l r : RedBlack K V} {k : K} {v : V} {e : K × V} :
    e ∈ (node c l k v r).toList ↔ e ∈ l.toList ∨ e = (k, v) ∨ e ∈ r.toList := by
  rw [toList, List.mem_append, List.mem_cons]

/-! ## Rebalancing -/

def isRed : RedBlack K V → Bool
  | leaf => false
  | node c .. => c = .red

def leftChild : RedBlack K V → RedBlack K V
  | leaf => leaf
  | node _ l .. => l

def rightChild : RedBlack K V → RedBlack K V
  | leaf => leaf
  | node _ _ _ _ r => r

def paint (c : Colour) : RedBlack K V → RedBlack K V
  | leaf => leaf
  | node _ l k v r => node c l k v r

def rotateLeft : RedBlack K V → RedBlack K V
  | node c l k v (node c' m k' v' r) => node c' (node c l k v m) k' v' r
  | t => t

def rotateRight : RedBlack K V → RedBlack K V
  | node c (node c' l k' v' m) k v r => node c' l k' v' (node c m k v r)
  | t => t

/-- A red node with a red child, which an insertion leaves below a black node. -/
def redRed (t : RedBlack K V) : Bool := t.isRed && (t.leftChild.isRed || t.rightChild.isRed)

/-- The node above two red ones on its left. If the other child is red too, the colours
move up; else the middle one of the three nodes comes up. -/
def fixLeft (c : Colour) (l : RedBlack K V) (k : K) (v : V) (r : RedBlack K V) : RedBlack K V :=
  if l.redRed then
    if r.isRed then node .red (l.paint .black) k v (r.paint .black)
    else
      let l := if l.rightChild.isRed then l.rotateLeft else l
      (node .red (l.paint .black) k v r).rotateRight
  else node c l k v r

/-- The node above two red ones on its right. -/
def fixRight (c : Colour) (l : RedBlack K V) (k : K) (v : V) (r : RedBlack K V) : RedBlack K V :=
  if r.redRed then
    if l.isRed then node .red (l.paint .black) k v (r.paint .black)
    else
      let r := if r.leftChild.isRed then r.rotateRight else r
      (node .red l k v (r.paint .black)).rotateLeft
  else node c l k v r

@[simp] theorem toList_paint (c : Colour) (t : RedBlack K V) : (t.paint c).toList = t.toList := by
  cases t <;> rfl

@[simp] theorem toList_rotateLeft (t : RedBlack K V) : t.rotateLeft.toList = t.toList := by
  unfold rotateLeft
  split
  · simp only [toList, List.append_assoc, List.cons_append]
  · rfl

@[simp] theorem toList_rotateRight (t : RedBlack K V) : t.rotateRight.toList = t.toList := by
  unfold rotateRight
  split
  · simp only [toList, List.append_assoc, List.cons_append]
  · rfl

@[simp] theorem toList_fixLeft (c : Colour) (l : RedBlack K V) (k : K) (v : V)
    (r : RedBlack K V) : (fixLeft c l k v r).toList = l.toList ++ (k, v) :: r.toList := by
  unfold fixLeft
  split_ifs <;> simp [toList]

@[simp] theorem toList_fixRight (c : Colour) (l : RedBlack K V) (k : K) (v : V)
    (r : RedBlack K V) : (fixRight c l k v r).toList = l.toList ++ (k, v) :: r.toList := by
  unfold fixRight
  split_ifs <;> simp [toList]

/-! ## Search and assignment -/

section Operations

variable (less : K → K → Bool) (k : K) (v : V)

/-- The last node on the way that is not less than the key, or else `bound`. -/
def lowerBound : RedBlack K V → Option (K × V) → Option (K × V)
  | leaf, bound => bound
  | node _ l a w r, bound =>
    if less a k then r.lowerBound bound else l.lowerBound (some (a, w))

/-- The lower bound, unless the key is less. -/
def find (t : RedBlack K V) : Option (K × V) :=
  (t.lowerBound less k none).filter fun e => !less k e.1

/-- The new node goes where the search ended, which is the one place for it if the comparison
orders the keys. -/
def ins : RedBlack K V → RedBlack K V
  | leaf => node .red leaf k v leaf
  | node c l a w r => if less a k then fixRight c l a w r.ins else fixLeft c l.ins a w r

def insert (t : RedBlack K V) : RedBlack K V := (t.ins less k v).paint .black

/-- Another value in the node that `lowerBound` finds in the tree. -/
def setBound : RedBlack K V → Option (RedBlack K V)
  | leaf => none
  | node c l a w r =>
    if less a k then r.setBound.map (node c l a w)
    else match l.setBound with
      | some l => some (node c l a w r)
      | none => some (node c l a v r)

/-- `m[k] = v`, for a comparison that orders the keys. If the key is there, its node gets the value
and keeps the key it has. -/
def assign (t : RedBlack K V) : RedBlack K V :=
  if (t.find less k).isSome then (t.setBound less k v).getD t else t.insert less k v

end Operations

variable {less : K → K → Bool} {k : K} {v : V} {t : RedBlack K V} {e : K × V}

theorem assign_of_find_none (h : t.find less k = none) : t.assign less k v = t.insert less k v := by
  rw [assign, h]
  rfl

theorem assign_of_find_some {t' : RedBlack K V} (h : t.find less k = some e)
    (hset : t.setBound less k v = some t') : t.assign less k v = t' := by
  rw [assign, h, hset]
  rfl

theorem mem_ins : e ∈ (t.ins less k v).toList ↔ e = (k, v) ∨ e ∈ t.toList := by
  induction t with
  | leaf => exact List.mem_cons
  | node c l a w r ihl ihr =>
    rw [ins, mem_toList_node]
    split
    · rw [toList_fixRight, List.mem_append, List.mem_cons, ihr]
      tauto
    · rw [toList_fixLeft, List.mem_append, List.mem_cons, ihl]
      tauto

theorem mem_insert : e ∈ (t.insert less k v).toList ↔ e = (k, v) ∨ e ∈ t.toList := by
  rw [insert, toList_paint, mem_ins]

/-- What a search finds is not less than the key. -/
theorem lowerBound_sound {bound : Option (K × V)} (h : t.lowerBound less k bound = some e) :
    bound = some e ∨ e ∈ t.toList ∧ less e.1 k = false := by
  induction t generalizing bound with
  | leaf => exact .inl h
  | node c l a w r ihl ihr =>
    rw [lowerBound] at h
    rw [mem_toList_node]
    split at h
    · exact (ihr h).imp_right fun ⟨hmem, hless⟩ => ⟨.inr (.inr hmem), hless⟩
    · next ha =>
        rcases ihl h with hroot | ⟨hmem, hless⟩
        · obtain rfl := Option.some.inj hroot
          exact .inr ⟨.inr (.inl rfl), Bool.eq_false_iff.mpr ha⟩
        · exact .inr ⟨.inl hmem, hless⟩

/-- A search finds entries of the tree only, whatever the comparison is. -/
theorem find_sound (h : t.find less k = some e) :
    e ∈ t.toList ∧ less e.1 k = false ∧ less k e.1 = false := by
  obtain ⟨hbound, hnot⟩ := Option.filter_eq_some_iff.mp h
  rcases lowerBound_sound hbound with hnone | ⟨hmem, hless⟩
  · cases hnone
  · exact ⟨hmem, hless, (Bool.not_eq_true' _).mp hnot⟩

end RedBlack

/-! ## Strict weak orders -/

/-- The comparison is a strict weak order of the keys in `S`. -/
structure WeakOrderOn {K : Type u} (less : K → K → Bool) (S : Set K) : Prop where
  asymm : ∀ a ∈ S, ∀ b ∈ S, less a b = true → less b a = false
  between : ∀ a ∈ S, ∀ b ∈ S, ∀ c ∈ S, less a c = true → less a b = true ∨ less b c = true

namespace RedBlack

variable {K : Type u} {V : Type v} {less : K → K → Bool} {k : K} {v : V} {t : RedBlack K V}
  {d e : K × V} {S : Set K}

/-- Every node is less than those on its right. -/
def Sorted (less : K → K → Bool) (t : RedBlack K V) : Prop :=
  t.toList.Pairwise fun d e => less d.1 e.1 = true

/-- The keys of the tree and `k` are in `S`. -/
def Within (S : Set K) (k : K) (t : RedBlack K V) : Prop := k ∈ S ∧ ∀ e ∈ t.toList, e.1 ∈ S

theorem pairwise_around {α : Type*} {R : α → α → Prop} {xs ys : List α} {x : α} :
    (xs ++ x :: ys).Pairwise R ↔
      (xs.Pairwise R ∧ ∀ y ∈ xs, R y x) ∧ (ys.Pairwise R ∧ ∀ z ∈ ys, R x z) ∧
        ∀ y ∈ xs, ∀ z ∈ ys, R y z := by
  simp only [List.pairwise_append, List.pairwise_cons, List.mem_cons, forall_eq_or_imp]
  constructor
  · rintro ⟨hxs, ⟨hright, hys⟩, hacross⟩
    exact ⟨⟨hxs, fun y hy => (hacross y hy).1⟩, ⟨hys, hright⟩, fun y hy => (hacross y hy).2⟩
  · rintro ⟨⟨hxs, hleft⟩, ⟨hys, hright⟩, hacross⟩
    exact ⟨hxs, ⟨hright, hys⟩, fun y hy => ⟨hleft y hy, hacross y hy⟩⟩

theorem within_node {c : Colour} {l r : RedBlack K V} {a : K} {w : V}
    (h : (node c l a w r).Within S k) : l.Within S k ∧ a ∈ S ∧ r.Within S k :=
  ⟨⟨h.1, fun e he => h.2 e (mem_toList_node.mpr (.inl he))⟩,
    h.2 (a, w) (mem_toList_node.mpr (.inr (.inl rfl))),
    h.1, fun e he => h.2 e (mem_toList_node.mpr (.inr (.inr he)))⟩

/-- A search that is to the right of everything keeps its bound. -/
theorem lowerBound_of_less {bound : Option (K × V)} (h : ∀ e ∈ t.toList, less e.1 k = true) :
    t.lowerBound less k bound = bound := by
  induction t with
  | leaf => rfl
  | node c l a w r ihl ihr =>
    rw [lowerBound, if_pos (h (a, w) (mem_toList_node.mpr (.inr (.inl rfl))))]
    exact ihr fun e he => h e (mem_toList_node.mpr (.inr (.inr he)))

theorem setBound_of_less (h : ∀ e ∈ t.toList, less e.1 k = true) :
    t.setBound less k v = none := by
  induction t with
  | leaf => rfl
  | node c l a w r ihl ihr =>
    rw [setBound, if_pos (h (a, w) (mem_toList_node.mpr (.inr (.inl rfl)))),
      ihr fun e he => h e (mem_toList_node.mpr (.inr (.inr he)))]
    rfl

section Ordered

variable (hweak : WeakOrderOn less S)
include hweak

/-- Where the search for `k` goes from `a`, if there is an entry that is equivalent to `k`. -/
theorem less_of_equivalent {a b : K} (ha : a ∈ S) (hb : b ∈ S) (hk : k ∈ S)
    (hbk : less b k = false) (hkb : less k b = false) :
    (less a b = true → less a k = true) ∧ (less b a = true → less k a = true) := by
  constructor
  · intro hab
    exact (hweak.between a ha k hk b hb hab).resolve_right (by rw [hkb]; exact Bool.false_ne_true)
  · intro hba
    exact (hweak.between b hb k hk a ha hba).resolve_left (by rw [hbk]; exact Bool.false_ne_true)

/-- **A search finds what is there.** -/
theorem lowerBound_of_mem {bound : Option (K × V)} (hin : t.Within S k) (hsorted : t.Sorted less)
    (he : e ∈ t.toList) (hek : less e.1 k = false) (hke : less k e.1 = false) :
    t.lowerBound less k bound = some e := by
  induction t generalizing bound with
  | leaf => cases he
  | node c l a w r ihl ihr =>
    obtain ⟨hinl, ha, hinr⟩ := within_node hin
    obtain ⟨⟨hl, hla⟩, ⟨hr, har⟩, -⟩ := pairwise_around.mp hsorted
    obtain ⟨hleft, hright⟩ :=
      less_of_equivalent hweak ha (hin.2 e he) hin.1 hek hke
    rw [lowerBound]
    rcases mem_toList_node.mp he with he | rfl | he
    · have hka : less a k = false := hweak.asymm k hin.1 a ha (hright (hla e he))
      rw [if_neg (Bool.eq_false_iff.mp hka)]
      exact ihl hinl hl he
    · rw [if_neg (Bool.eq_false_iff.mp hek)]
      refine lowerBound_of_less fun d hd => ?_
      exact (less_of_equivalent hweak (hinl.2 d hd) ha hin.1 hek hke).1 (hla d hd)
    · rw [if_pos (hleft (har e he))]
      exact ihr hinr hr he

theorem find_of_mem (hin : t.Within S k) (hsorted : t.Sorted less) (he : e ∈ t.toList)
    (hek : less e.1 k = false) (hke : less k e.1 = false) : t.find less k = some e := by
  rw [find, lowerBound_of_mem hweak hin hsorted he hek hke]
  exact Option.filter_eq_some_iff.mpr ⟨rfl, by rw [hke]; rfl⟩

theorem apart_of_find (hin : t.Within S k) (hsorted : t.Sorted less)
    (hfind : t.find less k = none) (he : e ∈ t.toList) :
    less e.1 k = true ∨ less k e.1 = true := by
  by_contra hnot
  rw [not_or, Bool.not_eq_true, Bool.not_eq_true] at hnot
  rw [find_of_mem hweak hin hsorted he hnot.1 hnot.2] at hfind
  cases hfind

theorem sorted_ins (hin : t.Within S k) (hsorted : t.Sorted less)
    (hnew : ∀ e ∈ t.toList, less e.1 k = true ∨ less k e.1 = true) :
    (t.ins less k v).Sorted less := by
  induction t with
  | leaf => exact List.pairwise_singleton _ _
  | node c l a w r ihl ihr =>
    obtain ⟨hinl, ha, hinr⟩ := within_node hin
    obtain ⟨⟨hl, hla⟩, ⟨hr, har⟩, hlr⟩ := pairwise_around.mp hsorted
    have hroot := hnew (a, w) (mem_toList_node.mpr (.inr (.inl rfl)))
    rw [ins]
    split
    · next hak =>
        rw [Sorted, toList_fixRight]
        refine pairwise_around.mpr ⟨⟨hl, hla⟩, ⟨ihr hinr hr fun e he =>
          hnew e (mem_toList_node.mpr (.inr (.inr he))), fun e he => ?_⟩, fun d hd e he => ?_⟩
        · rcases mem_ins.mp he with rfl | he
          · exact hak
          · exact har e he
        · rcases mem_ins.mp he with rfl | he
          · refine (hweak.between _ (hinl.2 d hd) _ hin.1 _ ha (hla d hd)).resolve_right ?_
            rw [hweak.asymm a ha k hin.1 hak]
            exact Bool.false_ne_true
          · exact hlr d hd e he
    · next hak =>
        rw [Sorted, toList_fixLeft]
        refine pairwise_around.mpr ⟨⟨ihl hinl hl fun e he =>
          hnew e (mem_toList_node.mpr (.inl he)), fun d hd => ?_⟩, ⟨hr, har⟩, fun d hd e he => ?_⟩
        · rcases mem_ins.mp hd with rfl | hd
          · exact hroot.resolve_left hak
          · exact hla d hd
        · rcases mem_ins.mp hd with rfl | hd
          · exact (hweak.between _ ha _ hin.1 _ (hinr.2 e he) (har e he)).resolve_left hak
          · exact hlr d hd e he

/-- The value is replaced where the search finds the key. -/
theorem setBound_of_mem (hin : t.Within S k) (hsorted : t.Sorted less) (he : e ∈ t.toList)
    (hek : less e.1 k = false) (hke : less k e.1 = false) :
    ∃ t', t.setBound less k v = some t' ∧ ∃ before after,
      t.toList = before ++ e :: after ∧ t'.toList = before ++ (e.1, v) :: after := by
  induction t with
  | leaf => cases he
  | node c l a w r ihl ihr =>
    obtain ⟨hinl, ha, hinr⟩ := within_node hin
    obtain ⟨⟨hl, hla⟩, ⟨hr, har⟩, -⟩ := pairwise_around.mp hsorted
    obtain ⟨hleft, hright⟩ :=
      less_of_equivalent hweak ha (hin.2 e he) hin.1 hek hke
    rw [setBound]
    rcases mem_toList_node.mp he with he | rfl | he
    · have hka : less a k = false := hweak.asymm k hin.1 a ha (hright (hla e he))
      obtain ⟨l', hset, before, after, hold, hnew⟩ := ihl hinl hl he
      rw [if_neg (Bool.eq_false_iff.mp hka), hset]
      exact ⟨_, rfl, before, after ++ (a, w) :: r.toList, by simp [toList, hold],
        by simp [toList, hnew]⟩
    · rw [if_neg (Bool.eq_false_iff.mp hek), setBound_of_less fun d hd =>
        (less_of_equivalent hweak (hinl.2 d hd) ha hin.1 hek hke).1 (hla d hd)]
      exact ⟨_, rfl, l.toList, r.toList, rfl, rfl⟩
    · obtain ⟨r', hset, before, after, hold, hnew⟩ := ihr hinr hr he
      rw [if_pos (hleft (har e he)), hset]
      exact ⟨_, rfl, l.toList ++ (a, w) :: before, after, by simp [toList, hold],
        by simp [toList, hnew]⟩

/-- **Assignment.** The value is found under the key that is there, or else under the new
one; the entries that are less or greater are those there were. -/
theorem mem_assign (hin : t.Within S k) (hsorted : t.Sorted less) :
    d ∈ (t.assign less k v).toList ↔
      d = (((t.find less k).map Prod.fst).getD k, v) ∨
        d ∈ t.toList ∧ (less d.1 k = true ∨ less k d.1 = true) := by
  cases hfind : t.find less k with
  | none =>
    rw [assign_of_find_none hfind, mem_insert]
    refine or_congr_right ⟨fun hd => ⟨hd, ?_⟩, And.left⟩
    exact apart_of_find hweak hin hsorted hfind hd
  | some e =>
    obtain ⟨he, hek, hke⟩ := find_sound hfind
    obtain ⟨t', hset, before, after, hold, hnew⟩ :=
      setBound_of_mem (v := v) hweak hin hsorted he hek hke
    rw [assign_of_find_some hfind hset, Option.map_some, Option.getD_some, hnew, hold,
      List.mem_append, List.mem_cons]
    rw [Sorted, hold] at hsorted
    obtain ⟨⟨-, hbefore⟩, ⟨-, hafter⟩, -⟩ := pairwise_around.mp hsorted
    have hequiv : ∀ a ∈ S, (less a e.1 = true → less a k = true) ∧
        (less e.1 a = true → less k a = true) :=
      fun a ha => less_of_equivalent hweak ha (hin.2 e he) hin.1 hek hke
    constructor
    · rintro (hd | rfl | hd)
      · have hmem : d ∈ before ++ e :: after := List.mem_append_left _ hd
        exact .inr ⟨hmem, .inl ((hequiv _ (hin.2 d (hold ▸ hmem))).1 (hbefore d hd))⟩
      · exact .inl rfl
      · have hmem : d ∈ before ++ e :: after :=
          List.mem_append_right _ (List.mem_cons_of_mem _ hd)
        exact .inr ⟨hmem, .inr ((hequiv _ (hin.2 d (hold ▸ hmem))).2 (hafter d hd))⟩
    · rintro (rfl | ⟨hd, hapart⟩)
      · exact .inr (.inl rfl)
      · rcases List.mem_append.mp hd with hd | hd
        · exact .inl hd
        · rcases List.mem_cons.mp hd with rfl | hd
          · rw [hek, hke] at hapart
            exact absurd hapart (by decide)
          · exact .inr (.inr hd)

theorem sorted_assign (hin : t.Within S k) (hsorted : t.Sorted less) :
    (t.assign less k v).Sorted less := by
  cases hfind : t.find less k with
  | none =>
    rw [assign_of_find_none hfind, insert, Sorted, toList_paint]
    exact sorted_ins hweak hin hsorted fun e he => apart_of_find hweak hin hsorted hfind he
  | some e =>
    obtain ⟨he, hek, hke⟩ := find_sound hfind
    obtain ⟨t', hset, before, after, hold, hnew⟩ :=
      setBound_of_mem (v := v) hweak hin hsorted he hek hke
    rw [assign_of_find_some hfind hset, Sorted, hnew]
    rw [Sorted, hold] at hsorted
    obtain ⟨hbefore, hafter, hacross⟩ := pairwise_around.mp hsorted
    exact pairwise_around.mpr ⟨hbefore, hafter, hacross⟩

end Ordered

end RedBlack

end KasmVNC.Lib
