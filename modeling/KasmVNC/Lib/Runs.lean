import Mathlib.Data.List.SplitBy

/-!
# Runs

`List.splitBy` cuts a list where neighbours are not joined. In a list in order, nothing before the
first element of a run belongs to that element, if what belongs to an element stands together and
is joined to it.
-/

namespace KasmVNC.Lib

variable {α : Type*} {r : α → α → Bool} {l : List α}

/-- One more element in front. -/
theorem splitBy_cons_cons (r : α → α → Bool) (b : α) (l : List α) :
    ∃ m gs, (b :: l).splitBy r = (b :: m) :: gs ∧ ∀ a, (a :: b :: l).splitBy r =
      if r a b then (a :: b :: m) :: gs else [a] :: (b :: m) :: gs := by
  obtain ⟨m, gs, hfirst⟩ : ∃ m gs, (b :: l).splitBy r = (b :: m) :: gs := by
    have hflat := List.flatten_splitBy r (b :: l)
    cases hsplit : (b :: l).splitBy r with
    | nil => exact absurd hsplit (List.splitBy_ne_nil.mpr (List.cons_ne_nil b l))
    | cons g gs =>
      cases g with
      | nil => exact absurd (hsplit ▸ List.mem_cons_self) (List.nil_notMem_splitBy r (b :: l))
      | cons c m =>
        rw [hsplit, List.flatten_cons, List.cons_append] at hflat
        exact ⟨m, gs, by rw [(List.cons.inj hflat).1]⟩
  refine ⟨m, gs, hfirst, fun a => ?_⟩
  obtain ⟨hflat, hnil, hchain, hheads⟩ := List.splitBy_eq_iff.mp hfirst
  split_ifs with hr
  · rw [List.splitBy_eq_iff]
    refine ⟨by rw [hflat]; rfl, ?_, ?_, ?_⟩
    · rw [List.mem_cons, not_or] at hnil ⊢
      exact ⟨nofun, hnil.2⟩
    · rw [List.forall_mem_cons] at hchain ⊢
      exact ⟨List.isChain_cons_cons.mpr ⟨hr, hchain.1⟩, hchain.2⟩
    · rw [List.isChain_cons] at hheads ⊢
      refine ⟨fun g hg => ?_, hheads.2⟩
      obtain ⟨hne, hne', hlast⟩ := hheads.1 g hg
      exact ⟨List.cons_ne_nil _ _, hne', by rwa [List.getLast_cons hne]⟩
  · have happend := List.splitBy_append_cons (r := r) (l := [a]) (a := b) l (by simpa using hr)
    rw [hfirst] at happend
    exact happend

section Order

variable {lt : α → α → Prop} {Belongs : α → α → Prop}

/-- Two runs are the same, or all of one of them stands before the other one. -/
theorem runs_trichotomy (hsorted : l.Pairwise lt) {g h : List α} (hg : g ∈ l.splitBy r)
    (hh : h ∈ l.splitBy r) :
    g = h ∨ (∀ a ∈ g, ∀ b ∈ h, lt a b) ∨ ∀ b ∈ h, ∀ a ∈ g, lt b a := by
  rw [← List.flatten_splitBy r l, List.pairwise_flatten] at hsorted
  have hruns := hsorted.2.imp (S := fun g h : List α =>
    g = h ∨ (∀ a ∈ g, ∀ b ∈ h, lt a b) ∨ ∀ b ∈ h, ∀ a ∈ g, lt b a) fun hlt => Or.inr (Or.inl hlt)
  refine List.Pairwise.forall_of_forall_of_flip ?_ hruns (hruns.imp ?_) hg hh
  · exact fun _ _ => Or.inl rfl
  · rintro g h (rfl | hlt | hlt)
    · exact Or.inl rfl
    · exact Or.inr (Or.inr hlt)
    · exact Or.inr (Or.inl hlt)

/-- Nothing that belongs to the first element of a run stands before it. -/
theorem not_belongs_of_lt [Std.Asymm lt] (hsorted : l.Pairwise lt)
    (hconvex : ∀ {x y z}, lt x y → lt y z → Belongs z x → Belongs z y)
    (hjoined : ∀ {x z}, Belongs z x → r x z = true) {x : α} {m : List α}
    (hx : x :: m ∈ l.splitBy r) {p : α} (hp : p ∈ l) (hlt : lt p x) : ¬Belongs x p := by
  have hfirst : ∀ {a p : α} {l : List α}, (a :: l).Pairwise lt → p ∈ a :: l → ¬lt p a := by
    intro a p l hsorted hp hlt
    rcases List.mem_cons.mp hp with rfl | hmem
    · exact Std.Asymm.asymm _ _ hlt hlt
    · exact Std.Asymm.asymm _ _ hlt (List.rel_of_pairwise_cons hsorted hmem)
  induction l generalizing p with
  | nil => exact absurd hp List.not_mem_nil
  | cons a l ih =>
    cases l with
    | nil =>
      obtain ⟨rfl, -⟩ := List.cons.inj (List.mem_singleton.mp hx)
      exact absurd hlt (hfirst hsorted hp)
    | cons b l =>
      have hrest := (List.pairwise_cons.mp hsorted).2
      obtain ⟨n, gs, hsplit, hcons⟩ := splitBy_cons_cons r b l
      rw [hsplit] at ih
      have hab : lt a b := List.rel_of_pairwise_cons hsorted List.mem_cons_self
      rw [hcons] at hx
      -- Either `x` is the first element at all, or what is behind `a` has the run too.
      have hrun : x = a ∨ (x :: m ∈ (b :: n) :: gs ∧ (lt b x ∨ x = b ∧ r a b = false)) := by
        have hlater : ∀ {g}, g ∈ gs → ∀ y ∈ g, lt b y := by
          intro g hg y hy
          rw [← List.flatten_splitBy r (b :: l), hsplit, List.flatten_cons,
            List.pairwise_append] at hrest
          exact hrest.2.2 b List.mem_cons_self y (List.mem_flatten_of_mem hg hy)
        split_ifs at hx with hr
        · rcases List.mem_cons.mp hx with heq | hgs
          · exact Or.inl (List.cons.inj heq).1
          · exact Or.inr ⟨List.mem_cons_of_mem _ hgs,
              Or.inl (hlater hgs x List.mem_cons_self)⟩
        · rcases List.mem_cons.mp hx with heq | htail
          · exact Or.inl (List.cons.inj heq).1
          · refine Or.inr ⟨htail, ?_⟩
            rcases List.mem_cons.mp htail with heq | hgs
            · exact Or.inr ⟨(List.cons.inj heq).1, Bool.eq_false_iff.mpr hr⟩
            · exact Or.inl (hlater hgs x List.mem_cons_self)
      rcases hrun with rfl | ⟨hmem, hb⟩
      · exact absurd hlt (hfirst hsorted hp)
      · rcases List.mem_cons.mp hp with rfl | hp
        · intro hbelongs
          rcases hb with hbx | ⟨rfl, hr⟩
          · exact ih hrest hmem List.mem_cons_self hbx (hconvex hab hbx hbelongs)
          · exact absurd (hjoined hbelongs) (Bool.eq_false_iff.mp hr)
        · exact ih hrest hmem hp hlt

end Order

end KasmVNC.Lib
