import Mathlib.Data.List.Basic

/-!
# Paths of files

A path is a list of names with slashes between them. It is resolved from a directory, which
is the list of names that lead to it: an empty name and a dot stay where they are, and two
dots go to the directory above, if there is one.
-/

namespace KasmVNC.Lib

variable {α : Type*} [DecidableEq α] {slash dot : α}

/-- One name on the way. -/
def enter (dot : α) (dir : List (List α)) (name : List α) : List (List α) :=
  if name = [] ∨ name = [dot] then dir
  else if name = [dot, dot] then dir.dropLast
  else dir ++ [name]

/-- Where a path leads to. -/
def resolve (slash dot : α) (dir : List (List α)) (path : List α) : List (List α) :=
  (path.splitOn slash).foldl (enter dot) dir

theorem resolve_append (dir : List (List α)) (path path' : List α) :
    resolve slash dot dir (path ++ slash :: path') =
      resolve slash dot (resolve slash dot dir path) path' := by
  rw [resolve, List.splitOn_append_cons_self, List.foldl_append]
  rfl

/-- There are two dots at the end of the path, and no name before them. -/
def ClimbsOut (slash dot : α) (path : List α) : Prop :=
  (path.splitOn slash).getLast? = some [dot, dot] ∧
    ∀ name ∈ (path.splitOn slash).dropLast, name = [] ∨ name = [dot]

instance (path : List α) : Decidable (ClimbsOut slash dot path) :=
  inferInstanceAs (Decidable (_ ∧ _))

omit [DecidableEq α] in
/-- A name in front of others has a slash behind it. -/
theorem infix_intercalate {name : List α} : ∀ {names : List (List α)}, name ∈ names.dropLast →
    name ++ [slash] <:+: [slash].intercalate names
  | name' :: name'' :: names, h => by
    rw [List.intercalate_cons_cons]
    rcases List.mem_cons.mp h with rfl | h
    · exact (List.prefix_append _ _).isInfix
    · exact (infix_intercalate h).trans (List.suffix_append _ _).isInfix

/-- Two dots can only be the last name if they are never followed by a slash. -/
theorem ne_dots_of_mem_dropLast {path : List α} (hdots : ¬[dot, dot, slash] <:+: path) :
    ∀ name ∈ (path.splitOn slash).dropLast, name ≠ [dot, dot] := by
  rintro name hname rfl
  apply hdots
  have h : _ <:+: [slash].intercalate _ := infix_intercalate hname
  rw [List.intercalate_splitOn] at h
  exact h

/-- The names that lead somewhere. -/
def proper (dot : α) (names : List (List α)) : List (List α) :=
  names.filter fun name => name ≠ [] ∧ name ≠ [dot]

theorem proper_eq_nil_iff {names : List (List α)} :
    proper dot names = [] ↔ ∀ name ∈ names, name = [] ∨ name = [dot] := by
  unfold proper
  rw [List.filter_eq_nil_iff]
  refine forall₂_congr fun name _ => ?_
  rw [decide_eq_true_eq, not_and_or, not_not, not_not]

/-- Without two dots the way leads down. -/
theorem foldl_enter {names : List (List α)} (h : ∀ name ∈ names, name ≠ [dot, dot]) :
    ∀ dir : List (List α), names.foldl (enter dot) dir = dir ++ proper dot names := by
  induction names with
  | nil => exact fun dir => (List.append_nil dir).symm
  | cons name names ih =>
    intro dir
    obtain ⟨hname, hnames⟩ := List.forall_mem_cons.mp h
    rw [List.foldl_cons, ih hnames, enter, if_neg hname]
    unfold proper
    by_cases hstay : name = [] ∨ name = [dot]
    · rw [if_pos hstay, List.filter_cons_of_neg]
      rw [decide_eq_true_eq, not_and_or, not_not, not_not]
      exact hstay
    · rw [if_neg hstay, List.filter_cons_of_pos, List.append_assoc, List.singleton_append]
      exact decide_eq_true (not_or.mp hstay)

/-- **Confinement.** A path in which two dots are never followed by a slash stays in its
directory if and only if it does not climb out of it, or there is nothing above. -/
theorem isPrefix_resolve_iff {path : List α} (hdots : ¬[dot, dot, slash] <:+: path)
    (dir : List (List α)) :
    dir <+: resolve slash dot dir path ↔ ¬ClimbsOut slash dot path ∨ dir = [] := by
  have hne := List.splitOn_ne_nil slash path
  have hfront := ne_dots_of_mem_dropLast hdots
  unfold resolve ClimbsOut
  rw [← List.dropLast_concat_getLast hne, List.dropLast_concat, List.getLast?_concat,
    List.foldl_append, foldl_enter hfront, List.foldl_cons, List.foldl_nil, ← proper_eq_nil_iff,
    Option.some.injEq]
  generalize (path.splitOn slash).dropLast = front
  generalize (path.splitOn slash).getLast hne = last
  by_cases hlast : last = [dot, dot]
  · rw [enter, if_neg (by simp [hlast]), if_pos hlast]
    by_cases hproper : proper dot front = []
    · rw [hproper, List.append_nil]
      constructor
      · -- a shorter list is no longer one's beginning
        intro h
        have hle := h.length_le
        rw [List.length_dropLast] at hle
        exact Or.inr (List.length_eq_zero_iff.mp (by omega))
      · rintro (h | rfl)
        · exact absurd ⟨hlast, rfl⟩ h
        · exact List.nil_prefix
    · rw [List.dropLast_append_of_ne_nil hproper]
      exact iff_of_true (List.prefix_append ..) (Or.inl fun h => hproper h.2)
  · refine iff_of_true ?_ (Or.inl fun h => hlast h.1)
    rw [enter, if_neg hlast]
    split
    · exact List.prefix_append ..
    · rw [List.append_assoc]
      exact List.prefix_append ..

end KasmVNC.Lib
