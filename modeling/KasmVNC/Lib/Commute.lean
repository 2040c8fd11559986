import Mathlib.Data.Set.Basic

/-!
# Actions that commute

A state is made of cells, and a partial action touches some of them: it looks at no other
cells and leaves all others alone. Two actions that touch different cells commute, also in
whether they succeed.

A list of actions is performed one after another. An action that commutes with all before it
can be performed first.
-/

namespace KasmVNC.Lib

/-! ## Cells -/

section Cells

variable {σ ι : Type*} {α : ι → Type*} (get : σ → ∀ i, α i)

/-- The two states have the same in these cells. -/
def AgreeOn (cells : Set ι) (s t : σ) : Prop := ∀ i ∈ cells, get s i = get t i

/-- An action that fails or succeeds by what is in these cells, and changes no others. -/
structure ActsOn (cells : Set ι) (f : σ → Option σ) : Prop where
  frame : ∀ {s t}, f s = some t → ∀ i ∉ cells, get t i = get s i
  depends : ∀ {s s' t}, AgreeOn get cells s s' → f s = some t →
    ∃ t', f s' = some t' ∧ AgreeOn get cells t t'

variable {get} {cells cells' : Set ι} {f g : σ → Option σ}

theorem ActsOn.bind_of_bind (hget : Function.Injective get) (hf : ActsOn get cells f)
    (hg : ActsOn get cells' g) (hdisj : ∀ i ∈ cells, i ∉ cells') {s t : σ}
    (h : (f s).bind g = some t) : (g s).bind f = some t := by
  obtain ⟨u, hu, ht⟩ := Option.bind_eq_some_iff.mp h
  -- `g` finds its cells as they are before `f`, and `f` as they are after `g`
  have hsu : AgreeOn get cells' u s := fun i hi =>
    hf.frame hu i fun hcell => hdisj i hcell hi
  obtain ⟨v, hv, htv⟩ := hg.depends hsu ht
  have hsv : AgreeOn get cells s v := fun i hi => (hg.frame hv i (hdisj i hi)).symm
  obtain ⟨t', ht', hut⟩ := hf.depends hsv hu
  have heq : t' = t := by
    apply hget
    funext i
    by_cases hcell : i ∈ cells
    · calc get t' i = get u i := (hut i hcell).symm
        _ = get t i := (hg.frame ht i (hdisj i hcell)).symm
    · by_cases hcell' : i ∈ cells'
      · calc get t' i = get v i := hf.frame ht' i hcell
          _ = get t i := (htv i hcell').symm
      · calc get t' i = get v i := hf.frame ht' i hcell
          _ = get s i := hg.frame hv i hcell'
          _ = get u i := (hf.frame hu i hcell).symm
          _ = get t i := (hg.frame ht i hcell').symm
  rw [hv, Option.bind_some, ht', heq]

/-- Actions on different cells commute. -/
theorem ActsOn.comm (hget : Function.Injective get) (hf : ActsOn get cells f)
    (hg : ActsOn get cells' g) (hdisj : ∀ i ∈ cells, i ∉ cells') (s : σ) :
    (f s).bind g = (g s).bind f := by
  ext t
  constructor
  · exact hf.bind_of_bind hget hg hdisj
  · exact hg.bind_of_bind hget hf fun i hi' hi => hdisj i hi hi'

end Cells

/-! ## Sequences -/

section Sequences

variable {σ α : Type*}

/-- The actions of a list, one after another. -/
def perform (act : α → σ → Option σ) : List α → σ → Option σ
  | [], s => some s
  | a :: as, s => (act a s).bind (perform act as)

variable {act : α → σ → Option σ}

theorem perform_cons (a : α) (as : List α) (s : σ) :
    perform act (a :: as) s = (act a s).bind (perform act as) := rfl

theorem perform_append (as bs : List α) (s : σ) :
    perform act (as ++ bs) s = (perform act as s).bind (perform act bs) := by
  induction as generalizing s with
  | nil => rfl
  | cons a as ih =>
    rw [List.cons_append, perform_cons, perform_cons, Option.bind_assoc]
    exact congrArg _ (funext ih)

/-- An action that commutes with those before it may as well come first. -/
theorem perform_move_front {a : α} {before after : List α}
    (h : ∀ b ∈ before, ∀ s, (act b s).bind (act a) = (act a s).bind (act b)) (s : σ) :
    perform act (before ++ a :: after) s = perform act (a :: (before ++ after)) s := by
  induction before generalizing s with
  | nil => rfl
  | cons b before ih =>
    have hrest : ∀ c ∈ before, ∀ s, (act c s).bind (act a) = (act a s).bind (act c) :=
      fun c hc => h c (List.mem_cons_of_mem b hc)
    calc perform act (b :: before ++ a :: after) s
        = (act b s).bind (perform act (a :: (before ++ after))) := by
          rw [List.cons_append, perform_cons]
          exact congrArg _ (funext (ih hrest))
      _ = ((act b s).bind (act a)).bind (perform act (before ++ after)) :=
          (Option.bind_assoc ..).symm
      _ = ((act a s).bind (act b)).bind (perform act (before ++ after)) := by
          rw [h b List.mem_cons_self]
      _ = perform act (a :: (b :: before ++ after)) s := Option.bind_assoc ..

end Sequences

end KasmVNC.Lib
