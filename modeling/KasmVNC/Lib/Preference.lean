import Mathlib.Data.List.Perm.Basic
import Mathlib.Data.List.Nodup

/-!
# Choosing by preference

A search that notes, in one pass over a list, the first element of each of several kinds
and returns the one of the kind that matters most. Taken out one after another, the elements
come in a fixed order: those of the first kind as they stand in the list, then what is left
of the second, and so on.
-/

namespace KasmVNC.Lib

variable {α : Type*}

/-- The elements of the list in the order in which they are chosen. -/
def prefer : List (α → Bool) → List α → List α
  | [], l => l
  | kind :: kinds, l => l.filter kind ++ prefer kinds (l.filter fun a => !kind a)

/-- The first element of the first kind that has one, else the first of all. -/
def preferred : List (α → Bool) → List α → Option α
  | [], l => l.head?
  | kind :: kinds, l => (l.find? kind).or (preferred kinds l)

theorem perm_prefer (kinds : List (α → Bool)) (l : List α) : (prefer kinds l).Perm l := by
  induction kinds generalizing l with
  | nil => exact List.Perm.refl l
  | cons kind kinds ih =>
    apply List.Perm.trans ((ih _).append_left _)
    exact List.filter_append_perm kind l

@[simp] theorem mem_prefer {kinds : List (α → Bool)} {l : List α} {a : α} :
    a ∈ prefer kinds l ↔ a ∈ l :=
  (perm_prefer kinds l).mem_iff

theorem nodup_prefer {kinds : List (α → Bool)} {l : List α} (h : l.Nodup) :
    (prefer kinds l).Nodup :=
  (perm_prefer kinds l).nodup_iff.mpr h

theorem head?_prefer (kinds : List (α → Bool)) (l : List α) :
    (prefer kinds l).head? = preferred kinds l := by
  induction kinds generalizing l with
  | nil => rfl
  | cons kind kinds ih =>
    rw [prefer, preferred, List.head?_append, List.head?_filter, ih]
    cases hfind : l.find? kind with
    | some a => rfl
    | none =>
      -- without an element of this kind nothing is taken out of the list
      have hall : (l.filter fun a => !kind a) = l := by
        apply List.filter_eq_self.mpr
        intro a ha
        simpa using List.find?_eq_none.mp hfind a ha
      rw [hall]

/-- What is left out beforehand is left out of the order. -/
theorem prefer_filter (keep : α → Bool) (kinds : List (α → Bool)) (l : List α) :
    prefer kinds (l.filter keep) = (prefer kinds l).filter keep := by
  induction kinds generalizing l with
  | nil => rfl
  | cons kind kinds ih =>
    rw [prefer, prefer, List.filter_append, ← ih]
    congr 1
    · exact List.filter_comm ..
    · rw [List.filter_comm]

/-- Only what the kinds say of the list's own elements matters. -/
theorem prefer_congr {kinds kinds' : List (α → Bool)} {l : List α}
    (h : List.Forall₂ (fun kind kind' => ∀ a ∈ l, kind a = kind' a) kinds kinds') :
    prefer kinds l = prefer kinds' l := by
  induction kinds generalizing kinds' l with
  | nil =>
    cases h
    rfl
  | cons kind kinds ih =>
    obtain ⟨kind', kinds', hkind, hkinds, rfl⟩ := List.forall₂_cons_left_iff.mp h
    have hrest : (l.filter fun a => !kind a) = l.filter fun a => !kind' a :=
      List.filter_congr fun a ha => by rw [hkind a ha]
    rw [prefer, prefer, List.filter_congr hkind, hrest]
    congr 1
    apply ih
    exact hkinds.imp fun _ _ hk a ha => hk a (List.mem_of_mem_filter ha)

end KasmVNC.Lib
