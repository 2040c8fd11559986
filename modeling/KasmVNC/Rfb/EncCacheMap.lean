import KasmVNC.Lib.RedBlack
import KasmVNC.Lib.Run
import Mathlib.Data.Option.Basic

/-!
# The encoder cache as a map

`EncCache` keeps the images of an update in a `std::map`, which is a search tree driven by
`EncId::operator<`. The operator joins the comparisons of the members with `||`, so it says
`a < b` whenever `a` is less in some member: it is the negation of `b ≤ a` in the product
order. The length is a part of the key that the operator does not look at.

Two things go wrong with this. Keys of which each is less in some member are both less than
the other, and a map promises nothing for such keys. And a key that is there keeps its length
when it gets other data. As long as neither happens the cache is a finite map.
-/

namespace KasmVNC.Rfb.EncCacheMap

open KasmVNC.Lib

/-- What `add` and `get` are told about an image. -/
structure Key where
  type : UInt8
  x : UInt16
  y : UInt16
  w : UInt16
  h : UInt16
deriving DecidableEq

structure EncId extends Key where
  len : UInt32

/-- `EncId::operator<` -/
def EncId.less (a b : EncId) : Bool :=
  a.type < b.type ||
  a.x < b.x ||
  a.y < b.y ||
  a.w < b.w ||
  a.h < b.h

/-- `std::map<EncId, const void *>` -/
abbrev EncCache (D : Type*) := RedBlack EncId D

namespace EncCache

variable {D : Type*}

def clear (_ : EncCache D) : EncCache D := .leaf

/-- There is no result if the key is both less than one of the map and greater: where the search
then ends is left to the library. -/
def add (key : Key) (len : UInt32) (data : D) (cache : EncCache D) : Option (EncCache D) :=
  let id : EncId := ⟨key, len⟩
  if cache.toList.any fun e => e.1.less id && id.less e.1 then none
  else some (cache.assign EncId.less id data)

/-- The length and the data. The length of the key that is looked for is not set. -/
def get (key : Key) (cache : EncCache D) : Option (UInt32 × D) :=
  (cache.find EncId.less ⟨key, 0⟩).map fun e => (e.1.len, e.2)

end EncCache

inductive CacheCall (D : Type*) where
  | add (key : Key) (len : UInt32) (data : D)
  | clear

variable {D : Type*}

def EncCache.step (cache : EncCache D) : CacheCall D → Option (EncCache D)
  | .add key len data => cache.add key len data
  | .clear => some cache.clear

/-- The length and the data last added under a key since the last `clear`. -/
abbrev Added (D : Type*) := Key → Option (UInt32 × D)

def Added.empty : Added D := fun _ => none

def Added.step (added : Added D) : CacheCall D → Added D
  | .add key len data => Function.update added key (some (len, data))
  | .clear => .empty

/-! ## The order of the keys -/

instance : LE Key :=
  ⟨fun a b => a.type ≤ b.type ∧ a.x ≤ b.x ∧ a.y ≤ b.y ∧ a.w ≤ b.w ∧ a.h ≤ b.h⟩

def Key.Comparable (a b : Key) : Prop := a ≤ b ∨ b ≤ a

instance (a b : Key) : Decidable (a ≤ b) := inferInstanceAs (Decidable (_ ∧ _))

instance (a b : Key) : Decidable (a.Comparable b) := inferInstanceAs (Decidable (_ ∨ _))

theorem Key.le_trans {a b c : Key} (hab : a ≤ b) (hbc : b ≤ c) : a ≤ c := by
  obtain ⟨ht, hx, hy, hw, hh⟩ := hab
  obtain ⟨ht', hx', hy', hw', hh'⟩ := hbc
  exact ⟨UInt8.le_trans ht ht', UInt16.le_trans hx hx', UInt16.le_trans hy hy',
    UInt16.le_trans hw hw', UInt16.le_trans hh hh'⟩

theorem Key.le_refl (a : Key) : a ≤ a :=
  ⟨UInt8.le_refl _, UInt16.le_refl _, UInt16.le_refl _, UInt16.le_refl _, UInt16.le_refl _⟩

theorem Key.le_antisymm {a b : Key} (hab : a ≤ b) (hba : b ≤ a) : a = b := by
  obtain ⟨ht, hx, hy, hw, hh⟩ := hab
  obtain ⟨ht', hx', hy', hw', hh'⟩ := hba
  cases a
  cases b
  simp only [Key.mk.injEq]
  exact ⟨UInt8.le_antisymm ht ht', UInt16.le_antisymm hx hx', UInt16.le_antisymm hy hy',
    UInt16.le_antisymm hw hw', UInt16.le_antisymm hh hh'⟩

theorem EncId.less_iff {a b : EncId} : a.less b = true ↔ ¬ b.toKey ≤ a.toKey := by
  show _ ↔ ¬ (_ ∧ _ ∧ _ ∧ _ ∧ _)
  simp only [EncId.less, Bool.or_eq_true, decide_eq_true_eq, not_and_or, UInt8.not_le,
    UInt16.not_le, or_assoc]

theorem EncId.less_eq_false {a b : EncId} : a.less b = false ↔ b.toKey ≤ a.toKey := by
  rw [Bool.eq_false_iff, Ne, EncId.less_iff, not_not]

/-- Two keys that are equivalent for the map are equal but for the length. -/
theorem EncId.apart_iff {a b : EncId} :
    (a.less b = true ∨ b.less a = true) ↔ a.toKey ≠ b.toKey := by
  rw [EncId.less_iff, EncId.less_iff, ← not_and_or]
  refine not_congr ⟨fun h => Key.le_antisymm h.2 h.1, fun h => ?_⟩
  rw [h]
  exact ⟨Key.le_refl _, Key.le_refl _⟩

theorem EncId.toKey_eq {a b : EncId} (hab : a.less b = false) (hba : b.less a = false) :
    a.toKey = b.toKey :=
  Key.le_antisymm (EncId.less_eq_false.mp hba) (EncId.less_eq_false.mp hab)

/-- **Where the operator is an order.** -/
theorem EncId.weakOrderOn {S : Set EncId}
    (h : ∀ a ∈ S, ∀ b ∈ S, a.toKey.Comparable b.toKey) : WeakOrderOn EncId.less S where
  asymm := by
    intro a ha b hb hab
    rw [EncId.less_iff] at hab
    exact EncId.less_eq_false.mpr ((h a ha b hb).resolve_right hab)
  between := by
    intro a _ b _ c _ hac
    by_contra hnot
    rw [not_or, Bool.not_eq_true, Bool.not_eq_true, EncId.less_eq_false,
      EncId.less_eq_false] at hnot
    exact EncId.less_iff.mp hac (Key.le_trans hnot.2 hnot.1)

/-! ## The calls for which the cache is a map -/

/-- The key is comparable with all that are there, and has the length it was added with. -/
def Orderly (added : Added D) : CacheCall D → Prop
  | .add key len _ => (∀ held, (added held).isSome → key.Comparable held) ∧
      ∀ image, added key = some image → image.1 = len
  | .clear => True

/-- The tree holds what was added, in the order of the keys. -/
structure Mirrors (cache : EncCache D) (added : Added D) : Prop where
  sorted : cache.Sorted EncId.less
  comparable : ∀ a b, (added a).isSome → (added b).isSome → a.Comparable b
  entries : ∀ key image, added key = some image ↔ (⟨key, image.1⟩, image.2) ∈ cache.toList

theorem mirrors_empty : Mirrors (.leaf : EncCache D) Added.empty where
  sorted := List.Pairwise.nil
  comparable := by
    intro a b ha
    cases ha
  entries := by
    intro key image
    constructor
    · intro h
      cases h
    · intro h
      cases h

variable {cache : EncCache D} {added : Added D}

theorem Mirrors.of_mem (h : Mirrors cache added) {e : EncId × D} (he : e ∈ cache.toList) :
    added e.1.toKey = some (e.1.len, e.2) :=
  (h.entries e.1.toKey (e.1.len, e.2)).mpr he

/-- A key that can be added, with those of the tree. -/
theorem Mirrors.within (h : Mirrors cache added) (key : Key) (len : UInt32) :
    cache.Within {id | (added id.toKey).isSome ∨ id.toKey = key} ⟨key, len⟩ := by
  refine ⟨.inr rfl, fun e he => .inl ?_⟩
  rw [h.of_mem he]
  rfl

theorem Mirrors.weakOrderOn (h : Mirrors cache added) {key : Key}
    (hkey : ∀ held, (added held).isSome → key.Comparable held) :
    WeakOrderOn EncId.less {id | (added id.toKey).isSome ∨ id.toKey = key} := by
  refine EncId.weakOrderOn ?_
  rintro a (ha | rfl) b (hb | hb)
  · exact h.comparable _ _ ha hb
  · rw [hb]
    exact (hkey _ ha).symm
  · exact hkey _ hb
  · rw [hb]
    exact .inl (Key.le_refl _)

/-- **A lookup in a tree that holds what was added.** A key that was not added is not found
even if it is not comparable with the others. -/
theorem Mirrors.get_eq (h : Mirrors cache added) (key : Key) : cache.get key = added key := by
  unfold EncCache.get
  cases hadded : added key with
  | none =>
    cases hfind : cache.find EncId.less ⟨key, 0⟩ with
    | none => rfl
    | some e =>
      obtain ⟨he, hless, hless'⟩ := RedBlack.find_sound hfind
      have hkey : e.1.toKey = key := EncId.toKey_eq hless hless'
      rw [← hkey, h.of_mem he] at hadded
      cases hadded
  | some image =>
    have he := (h.entries key image).mp hadded
    have hkey : ∀ held, (added held).isSome → key.Comparable held :=
      fun held => h.comparable key held (by rw [hadded]; rfl)
    rw [RedBlack.find_of_mem (h.weakOrderOn hkey) (h.within key 0) h.sorted he
      (EncId.less_eq_false.mpr (Key.le_refl _)) (EncId.less_eq_false.mpr (Key.le_refl _))]
    rfl

/-- Comparable keys are not less both ways. -/
theorem Mirrors.add_eq (h : Mirrors cache added) {key : Key}
    (hkey : ∀ held, (added held).isSome → key.Comparable held) (len : UInt32) (data : D) :
    cache.add key len data = some (cache.assign EncId.less ⟨key, len⟩ data) := by
  refine if_neg fun htangled => ?_
  obtain ⟨e, he, hless⟩ := List.any_eq_true.mp htangled
  rw [Bool.and_eq_true, EncId.less_iff, EncId.less_iff] at hless
  rcases hkey e.1.toKey (by rw [h.of_mem he]; rfl) with hle | hle
  · exact hless.1 hle
  · exact hless.2 hle

theorem Mirrors.assign (h : Mirrors cache added) {key : Key} {len : UInt32} {data : D}
    (hok : Orderly added (.add key len data)) :
    Mirrors (cache.assign EncId.less ⟨key, len⟩ data) (added.step (.add key len data)) := by
  obtain ⟨hkey, hlen⟩ := hok
  have hweak := h.weakOrderOn hkey
  have hin := h.within key len
  have hheld : ((cache.find EncId.less ⟨key, len⟩).map Prod.fst).getD ⟨key, len⟩ =
      (⟨key, len⟩ : EncId) := by
    cases hfind : cache.find EncId.less ⟨key, len⟩ with
    | none => rfl
    | some e =>
      obtain ⟨he, hless, hless'⟩ := RedBlack.find_sound hfind
      obtain ⟨⟨held, heldLen⟩, image⟩ := e
      obtain rfl : held = key := EncId.toKey_eq hless hless'
      obtain rfl : heldLen = len := hlen _ (h.of_mem he)
      rfl
  refine ⟨RedBlack.sorted_assign hweak hin h.sorted, ?_, ?_⟩
  · intro a b ha hb
    simp only [Added.step, Function.update_apply] at ha hb
    split at ha <;> split at hb
    · subst a b
      exact .inl (Key.le_refl _)
    · subst a
      exact hkey b hb
    · subst b
      exact (hkey a ha).symm
    · exact h.comparable a b ha hb
  · intro id image
    rw [RedBlack.mem_assign hweak hin h.sorted, hheld, EncId.apart_iff]
    simp only [Added.step, Function.update_apply]
    split
    · next hid =>
        subst id
        constructor
        · intro himage
          obtain rfl := Option.some.inj himage
          exact .inl rfl
        · rintro (hsame | ⟨-, hother⟩)
          · rw [Prod.mk.injEq, EncId.mk.injEq] at hsame
            obtain ⟨⟨-, rfl⟩, rfl⟩ := hsame
            rfl
          · exact absurd rfl hother
    · next hid =>
        rw [h.entries]
        constructor
        · exact fun hmem => .inr ⟨hmem, hid⟩
        · rintro (hsame | ⟨hmem, -⟩)
          · rw [Prod.mk.injEq, EncId.mk.injEq] at hsame
            exact absurd hsame.1.1 hid
          · exact hmem

theorem Mirrors.step (h : Mirrors cache added) {call : CacheCall D} (hok : Orderly added call) :
    ∃ cache', cache.step call = some cache' ∧ Mirrors cache' (added.step call) := by
  cases call with
  | add key len data => exact ⟨_, h.add_eq hok.1 len data, h.assign hok⟩
  | clear => exact ⟨_, rfl, mirrors_empty⟩

theorem Mirrors.run {calls : List (CacheCall D)} (h : Mirrors cache added)
    (hok : Guarded Added.step Orderly added calls) :
    ∃ cache', calls.foldlM EncCache.step cache = some cache' ∧
      Mirrors cache' (run Added.step added calls) := by
  induction calls generalizing cache added with
  | nil => exact ⟨cache, rfl, h⟩
  | cons call calls ih =>
    obtain ⟨cache', hstep, h'⟩ := h.step hok.1
    rw [List.foldlM_cons, hstep]
    exact ih h' hok.2

/-- **The cache is a finite map** for calls that are orderly. -/
theorem get_eq_added {calls : List (CacheCall D)}
    (hok : Guarded Added.step Orderly Added.empty calls) :
    ∃ cache, calls.foldlM EncCache.step (.leaf : EncCache D) = some cache ∧
      ∀ key, cache.get key = run Added.step Added.empty calls key := by
  obtain ⟨cache, hrun, hmirrors⟩ := mirrors_empty.run hok
  exact ⟨cache, hrun, hmirrors.get_eq⟩

/-- A rectangle of 4x4 pixels. -/
def keyAt (x y : UInt16) : Key := ⟨0, x, y, 4, 4⟩

theorem get_eq_added_diagonal :
    ∃ cache, [.add (keyAt 0 0) 10 1, .clear, .add (keyAt 8 8) 20 2, .add (keyAt 0 8) 30 3,
      .add (keyAt 8 8) 20 4].foldlM EncCache.step (.leaf : EncCache ℕ) = some cache ∧
        cache.get (keyAt 8 8) = some (20, 4) := by
  have hok : Guarded Added.step Orderly (Added.empty : Added ℕ) [.add (keyAt 0 0) 10 1, .clear,
      .add (keyAt 8 8) 20 2, .add (keyAt 0 8) 30 3, .add (keyAt 8 8) 20 4] := by
    simp only [Guarded, Orderly, Added.step, Added.empty, Function.update_apply, true_and]
    refine ⟨⟨fun held hheld => ?_, fun image h => ?_⟩, ⟨fun held hheld => ?_, fun image h => ?_⟩,
      ⟨fun held hheld => ?_, fun image h => ?_⟩, ⟨fun held hheld => ?_, fun image h => ?_⟩, trivial⟩
    · cases hheld
    · cases h
    · cases hheld
    · cases h
    · split at hheld
      · subst held
        decide
      · cases hheld
    · cases h
    · split at hheld
      · subst held
        decide
      · split at hheld
        · subst held
          decide
        · cases hheld
    · obtain rfl := Option.some.inj h
      rfl
  obtain ⟨cache, hrun, hget⟩ := get_eq_added hok
  exact ⟨cache, hrun, (hget _).trans (by decide)⟩

/-! ## Where it is not -/

/-- The same key with another length. -/
theorem cache_is_no_map :
    ([.add (keyAt 0 0) 10 1, .add (keyAt 0 0) 20 2].foldlM EncCache.step
        (.leaf : EncCache ℕ)).map (·.get (keyAt 0 0)) = some (some (10, 2)) ∧
      run Added.step (Added.empty : Added ℕ) [.add (keyAt 0 0) 10 1, .add (keyAt 0 0) 20 2]
        (keyAt 0 0) = some (20, 2) := by
  decide

end KasmVNC.Rfb.EncCacheMap
