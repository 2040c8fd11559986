import Mathlib.Data.List.Range
import Mathlib.Data.Int.Order.Basic
import Mathlib.Algebra.BigOperators.Group.List.Basic
import Mathlib.Algebra.Order.Ring.Nat

/-!
# Computations that may be undefined

In `Option` a computation is `none` where the language leaves open what happens: a number that
does not fit, an access outside of an array. `Returns` says that it is defined and what it
gives, `Allows` what it gives if it is defined. Each has its rule for sequences and its rule
for counting loops.
-/

namespace KasmVNC.Lib

/-- A number in 32 bits with a sign. -/
def int (v : ℤ) : Option ℤ := if -2 ^ 31 ≤ v ∧ v < 2 ^ 31 then some v else none

theorem int_eq {v : ℤ} (hlo : -2 ^ 31 ≤ v) (hhi : v < 2 ^ 31) : int v = some v :=
  if_pos ⟨hlo, hhi⟩

theorem of_int {v w : ℤ} (h : int v = some w) : v = w := by
  unfold int at h
  split at h
  · exact Option.some.inj h
  · cases h

theorem int_bounds {v w : ℤ} (h : int v = some w) : -2 ^ 31 ≤ v ∧ v < 2 ^ 31 := by
  unfold int at h
  split at h
  · assumption
  · cases h

theorem of_guard {p : Prop} [Decidable p] {u : Unit} (h : (guard p : Option Unit) = some u) : p := by
  by_contra hp
  rw [guard, if_neg hp] at h
  cases h

theorem guard_true {p : Prop} [Decidable p] (h : p) : (guard p : Option Unit) = some () :=
  if_pos h

/-- A number in 32 bits without a sign, and whether a computation on the way to it has wrapped
around. -/
structure Unsigned where
  value : ℕ
  wraps : Bool

namespace Unsigned

/-- A number that is known to fit. -/
def exact (n : ℕ) : Unsigned := ⟨n, false⟩

@[simp] theorem exact_value (n : ℕ) : (exact n).value = n := rfl

def ofInt (v : ℤ) : Unsigned := ⟨(v % 2 ^ 32).toNat, v < 0 || 2 ^ 32 ≤ v⟩

def add (a b : Unsigned) : Unsigned :=
  ⟨(a.value + b.value) % 2 ^ 32, a.wraps || b.wraps || 2 ^ 32 ≤ a.value + b.value⟩

def mul (a b : Unsigned) : Unsigned :=
  ⟨a.value * b.value % 2 ^ 32, a.wraps || b.wraps || 2 ^ 32 ≤ a.value * b.value⟩

def div (a b : Unsigned) : Option Unsigned :=
  if b.value = 0 then none else some ⟨a.value / b.value, a.wraps || b.wraps⟩

def mod (a b : Unsigned) : Option Unsigned :=
  if b.value = 0 then none else some ⟨a.value % b.value, a.wraps || b.wraps⟩

variable {m n : ℕ} {a b c : Unsigned}

theorem ofInt_exact {v : ℤ} (hlo : 0 ≤ v) (hhi : v < 2 ^ 32) : ofInt v = exact v.toNat := by
  have hwraps : (decide (v < 0) || decide ((2 : ℤ) ^ 32 ≤ v)) = false := by
    rw [decide_eq_false (by omega), decide_eq_false (by omega)]
    rfl
  rw [ofInt, Int.emod_eq_of_lt hlo hhi, hwraps]
  rfl

theorem add_exact (h : m + n < 2 ^ 32) : add (exact m) (exact n) = exact (m + n) := by
  have hwraps : decide (2 ^ 32 ≤ m + n) = false := decide_eq_false (Nat.not_le.mpr h)
  show (⟨(m + n) % 2 ^ 32, false || false || decide (2 ^ 32 ≤ m + n)⟩ : Unsigned) = exact (m + n)
  rw [hwraps, Nat.mod_eq_of_lt h]
  rfl

theorem mul_exact (h : m * n < 2 ^ 32) : mul (exact m) (exact n) = exact (m * n) := by
  have hwraps : decide (2 ^ 32 ≤ m * n) = false := decide_eq_false (Nat.not_le.mpr h)
  show (⟨m * n % 2 ^ 32, false || false || decide (2 ^ 32 ≤ m * n)⟩ : Unsigned) = exact (m * n)
  rw [hwraps, Nat.mod_eq_of_lt h]
  rfl

theorem div_exact (h : n ≠ 0) : div (exact m) (exact n) = some (exact (m / n)) := if_neg h

theorem mod_exact (h : n ≠ 0) : mod (exact m) (exact n) = some (exact (m % n)) := if_neg h

theorem of_mul_wraps (h : (mul a b).wraps = false) :
    a.wraps = false ∧ b.wraps = false ∧ a.value * b.value < 2 ^ 32 := by
  obtain ⟨hab, hfit⟩ := Bool.or_eq_false_iff.mp h
  obtain ⟨ha, hb⟩ := Bool.or_eq_false_iff.mp hab
  exact ⟨ha, hb, Nat.not_le.mp (of_decide_eq_false hfit)⟩

theorem of_div (h : div a b = some c) : b.value ≠ 0 ∧ c.wraps = (a.wraps || b.wraps) := by
  unfold div at h
  split at h
  · cases h
  · rename_i hb
    cases h
    exact ⟨hb, rfl⟩

theorem of_mod (h : mod a b = some c) : b.value ≠ 0 := by
  unfold mod at h
  split at h
  · cases h
  · assumption

/-- The sum of numbers that fits. -/
theorem foldl_add_exact {α : Type*} {f : α → ℕ} : ∀ {xs : List α} {m : ℕ},
    m + (xs.map f).sum < 2 ^ 32 →
      xs.foldl (fun a x => a.add (exact (f x))) (exact m) = exact (m + (xs.map f).sum)
  | [], _, _ => rfl
  | x :: xs, m, h => by
    rw [List.map_cons, List.sum_cons, ← Nat.add_assoc] at h ⊢
    rw [List.foldl_cons, add_exact (by omega)]
    exact foldl_add_exact h

end Unsigned

universe u

variable {σ τ : Type u}

def Returns (r : Option σ) (P : σ → Prop) : Prop := ∃ s, r = some s ∧ P s

def Allows (r : Option σ) (P : σ → Prop) : Prop := ∀ s, r = some s → P s

/-- A loop from the number `i` on, for either of the two. -/
theorem foldlM_range'_of {R : Option σ → (σ → Prop) → Prop}
    (done : ∀ {P : σ → Prop} {s : σ}, P s → R (some s) P)
    (bind : ∀ {r : Option σ} {P Q : σ → Prop} {f : σ → Option σ}, R r P →
      (∀ s, P s → R (f s) Q) → R (r >>= f) Q) {f : σ → ℕ → Option σ} (I : ℕ → σ → Prop) :
    ∀ {n i : ℕ} {s : σ}, I i s →
      (∀ k, i ≤ k → k < i + n → ∀ s, I k s → R (f s k) (I (k + 1))) →
      R ((List.range' i n).foldlM f s) (I (i + n))
  | 0, i, s, h, _ => done h
  | n + 1, i, s, h, hbody => by
    rw [List.range'_succ, List.foldlM_cons]
    refine bind (hbody i le_rfl (by omega) s h) fun t ht => ?_
    have hrest := foldlM_range'_of done bind I (n := n) ht fun k hle hlt =>
      hbody k (by omega) (by omega)
    rwa [Nat.add_right_comm] at hrest

namespace Returns

variable {r : Option σ} {P R : σ → Prop} {Q : τ → Prop}

theorem done {s : σ} (h : P s) : Returns (some s) P := ⟨s, rfl, h⟩

theorem mono (hr : Returns r P) (h : ∀ s, P s → R s) : Returns r R := by
  obtain ⟨s, hs, hP⟩ := hr
  exact ⟨s, hs, h s hP⟩

theorem bind {f : σ → Option τ} (hr : Returns r P) (hf : ∀ s, P s → Returns (f s) Q) :
    Returns (r >>= f) Q := by
  obtain ⟨s, rfl, hP⟩ := hr
  exact hf s hP

theorem foldlM_range {f : σ → ℕ → Option σ} {n : ℕ} {s : σ} (I : ℕ → σ → Prop) (h : I 0 s)
    (hbody : ∀ k < n, ∀ s, I k s → Returns (f s k) (I (k + 1))) :
    Returns ((List.range n).foldlM f s) (I n) := by
  have hloop := foldlM_range'_of done bind I (n := n) h fun k _ hlt => hbody k (by omega)
  rwa [Nat.zero_add, ← List.range_eq_range'] at hloop

end Returns

namespace Allows

variable {r : Option σ} {P R : σ → Prop} {Q : τ → Prop}

theorem done {s : σ} (h : P s) : Allows (some s) P := by
  rintro t ht
  cases ht
  exact h

theorem trivial : Allows r fun _ => True := fun _ _ => True.intro

theorem mono (hr : Allows r P) (h : ∀ s, P s → R s) : Allows r R := fun s hs => h s (hr s hs)

theorem bind {f : σ → Option τ} (hr : Allows r P) (hf : ∀ s, P s → Allows (f s) Q) :
    Allows (r >>= f) Q := by
  rintro t ht
  obtain ⟨s, hs, hft⟩ := Option.bind_eq_some_iff.mp ht
  exact hf s (hr s hs) t hft

theorem foldlM {α : Type*} {f : σ → α → Option σ} {I : σ → Prop} :
    ∀ {xs : List α} {s : σ}, I s → (∀ x ∈ xs, ∀ s, I s → Allows (f s x) I) →
      Allows (xs.foldlM f s) I
  | [], _, h, _ => done h
  | x :: xs, s, h, hbody => by
    rw [List.foldlM_cons]
    refine (hbody x List.mem_cons_self s h).bind fun t ht => ?_
    exact foldlM ht fun y hy => hbody y (List.mem_cons_of_mem x hy)

theorem foldlM_range {f : σ → ℕ → Option σ} {n : ℕ} {s : σ} (I : ℕ → σ → Prop) (h : I 0 s)
    (hbody : ∀ k < n, ∀ s, I k s → Allows (f s k) (I (k + 1))) :
    Allows ((List.range n).foldlM f s) (I n) := by
  have hloop := foldlM_range'_of done bind I (n := n) h fun k _ hlt => hbody k (by omega)
  rwa [Nat.zero_add, ← List.range_eq_range'] at hloop

end Allows

end KasmVNC.Lib
