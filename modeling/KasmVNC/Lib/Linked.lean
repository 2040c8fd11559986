import Mathlib.Data.List.Basic
import Mathlib.Logic.Function.Basic

/-!
# Linked lists in an array

The nodes of a list are numbers, and `next` gives the node that follows. A walk looks for a
node and keeps the one before it, so that a node can be linked to the end if there is none.
-/

namespace KasmVNC.Lib

variable {next next' : ℕ → Option ℕ}

/-- The nodes that are found one after another, up to the end of the list. -/
def Linked (next : ℕ → Option ℕ) : Option ℕ → List ℕ → Prop
  | head, [] => head = none
  | head, n :: nodes => head = some n ∧ Linked next (next n) nodes

/-- `while (node != NULL) { if (p(node)) break; prev = node; node = node->next; }`

The node that is found and the one before it, in at most `fuel` turns. -/
def walk (next : ℕ → Option ℕ) (p : ℕ → Bool) :
    ℕ → Option ℕ → Option ℕ → Option ℕ × Option ℕ
  | fuel + 1, prev, some n =>
    if p n then (some n, prev) else walk next p fuel (some n) (next n)
  | 0, prev, some _ => (none, prev)
  | _, prev, none => (none, prev)

theorem walk_none (next : ℕ → Option ℕ) (p : ℕ → Bool) (fuel : ℕ) (prev : Option ℕ) :
    walk next p fuel prev none = (none, prev) := by
  cases fuel <;> rfl

/-- A walk with enough turns finds the first node there is. -/
theorem walk_found {p : ℕ → Bool} {head : Option ℕ} {nodes : List ℕ} (h : Linked next head nodes)
    {fuel : ℕ} {prev : Option ℕ} (hfuel : nodes.length ≤ fuel) :
    (walk next p fuel prev head).1 = nodes.find? p := by
  induction nodes generalizing head fuel prev with
  | nil =>
    obtain rfl := h
    rw [walk_none]
    rfl
  | cons n nodes ih =>
    obtain ⟨rfl, hrest⟩ := h
    cases fuel with
    | zero => cases hfuel
    | succ fuel =>
      rw [walk, List.find?_cons]
      cases p n with
      | true => rfl
      | false => exact ih hrest (Nat.le_of_succ_le_succ hfuel)

/-- Otherwise it ends at the last one. -/
theorem walk_last {p : ℕ → Bool} {head : Option ℕ} {nodes : List ℕ} (h : Linked next head nodes)
    {fuel : ℕ} {prev : Option ℕ} (hfuel : nodes.length ≤ fuel) (hnone : ∀ n ∈ nodes, p n = false) :
    (walk next p fuel prev head).2 = nodes.getLast?.or prev := by
  induction nodes generalizing head fuel prev with
  | nil =>
    obtain rfl := h
    rw [walk_none]
    rfl
  | cons n nodes ih =>
    obtain ⟨rfl, hrest⟩ := h
    cases fuel with
    | zero => cases hfuel
    | succ fuel =>
      rw [walk, hnone n List.mem_cons_self, List.getLast?_cons]
      refine (ih hrest (Nat.le_of_succ_le_succ hfuel)
        fun m hm => hnone m (List.mem_cons_of_mem _ hm)).trans ?_
      cases nodes.getLast? <;> rfl

/-- Other nodes do not matter. -/
theorem Linked.congr {head : Option ℕ} {nodes : List ℕ} (h : Linked next head nodes)
    (hsame : ∀ n ∈ nodes, next' n = next n) : Linked next' head nodes := by
  induction nodes generalizing head with
  | nil => exact h
  | cons n nodes ih =>
    refine ⟨h.1, ?_⟩
    rw [hsame n List.mem_cons_self]
    exact ih h.2 fun m hm => hsame m (List.mem_cons_of_mem _ hm)

theorem linked_single {n : ℕ} (hend : next n = none) : Linked next (some n) [n] := ⟨rfl, hend⟩

/-- **Linking a node** to the last one of a list. -/
theorem Linked.concat {head : Option ℕ} {nodes : List ℕ} {last n : ℕ}
    (h : Linked next head (nodes ++ [last])) (hsame : ∀ m ∈ nodes, next' m = next m)
    (hlast : next' last = some n) (hend : next' n = none) :
    Linked next' head (nodes ++ [last] ++ [n]) := by
  induction nodes generalizing head with
  | nil => exact ⟨h.1, hlast, hend⟩
  | cons m nodes ih =>
    refine ⟨h.1, ?_⟩
    rw [hsame m List.mem_cons_self]
    exact ih h.2 fun k hk => hsame k (List.mem_cons_of_mem _ hk)

end KasmVNC.Lib
