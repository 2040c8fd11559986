import Mathlib.Data.List.Basic

/-!
# Runs of a step function

A system is a step function `σ → ε → σ`; a run is its fold over a list of
events. An invariant that every step preserves holds after every run. Where a
step preserves it only under a guard, the guard is asked of each event in the
state in which the event is executed (`Guarded`).

Fallible systems use the same induction in `Except`.
-/

namespace KasmVNC.Lib

universe u

variable {σ ε E : Type*}

/-- The state after a list of events. -/
def run (step : σ → ε → σ) (s : σ) (es : List ε) : σ := es.foldl step s

@[simp] theorem run_nil (step : σ → ε → σ) (s : σ) : run step s [] = s := rfl

@[simp] theorem run_cons (step : σ → ε → σ) (s : σ) (e : ε) (es : List ε) :
    run step s (e :: es) = run step (step s e) es := rfl

theorem run_append (step : σ → ε → σ) (s : σ) (es fs : List ε) :
    run step s (es ++ fs) = run step (run step s es) fs :=
  List.foldl_append

/-- Every event of the list meets `ok` in the state it is executed in. -/
def Guarded (step : σ → ε → σ) (ok : σ → ε → Prop) : σ → List ε → Prop
  | _, [] => True
  | s, e :: es => ok s e ∧ Guarded step ok (step s e) es

/-- A guard that can be decided can be decided along a run. -/
instance decidableGuarded {step : σ → ε → σ} {ok : σ → ε → Prop} [∀ s e, Decidable (ok s e)] :
    ∀ s es, Decidable (Guarded step ok s es)
  | _, [] => inferInstanceAs (Decidable True)
  | s, e :: es =>
    have : Decidable (Guarded step ok (step s e) es) := decidableGuarded (step s e) es
    inferInstanceAs (Decidable (ok s e ∧ Guarded step ok (step s e) es))

theorem guarded_append {step : σ → ε → σ} {ok : σ → ε → Prop} :
    ∀ {s : σ} {es fs : List ε},
      Guarded step ok s (es ++ fs) ↔
        Guarded step ok s es ∧ Guarded step ok (run step s es) fs
  | _, [], _ => by simp [Guarded]
  | s, e :: es, fs => by
    simp only [List.cons_append, Guarded, run_cons, and_assoc]
    rw [guarded_append]

/-- **Invariant rule.** A property that guarded steps preserve holds after a
guarded run. -/
theorem run_invariant {step : σ → ε → σ} {ok : σ → ε → Prop} {I : σ → Prop}
    (hstep : ∀ s e, I s → ok s e → I (step s e)) {s : σ} {es : List ε}
    (hs : I s) (hg : Guarded step ok s es) : I (run step s es) := by
  induction es generalizing s with
  | nil => exact hs
  | cons e es ih => exact ih (hstep s e hs hg.1) hg.2

/-- The invariant rule for steps that need no guard. -/
theorem run_invariant_all {step : σ → ε → σ} {I : σ → Prop}
    (hstep : ∀ s e, I s → I (step s e)) {s : σ} (es : List ε)
    (hs : I s) : I (run step s es) := by
  induction es generalizing s with
  | nil => exact hs
  | cons e es ih => exact ih (hstep s e hs)

/-- The invariant rule for the events of one list. -/
theorem run_invariant_mem {step : σ → ε → σ} {I : σ → Prop} {es : List ε}
    (hstep : ∀ s, ∀ e ∈ es, I s → I (step s e)) {s : σ} (hs : I s) : I (run step s es) := by
  induction es generalizing s with
  | nil => exact hs
  | cons e es ih =>
    exact ih (fun s' e' he' => hstep s' e' (List.mem_cons_of_mem e he'))
      (hstep s e List.mem_cons_self hs)

/-- What one event brings about and no event takes away holds after every run
with that event. -/
theorem run_established {step : σ → ε → σ} {I : σ → Prop} {e : ε} (hmake : ∀ s, I (step s e))
    (hkeep : ∀ s e', I s → I (step s e')) {s : σ} {es : List ε} (he : e ∈ es) :
    I (run step s es) := by
  obtain ⟨before, after, rfl⟩ := List.append_of_mem he
  rw [run_append, run_cons]
  exact run_invariant_all hkeep after (hmake _)

/-- A property of single steps that the invariant and the guard give holds at
every step of a guarded run. -/
theorem guarded_imp {step : σ → ε → σ} {ok good : σ → ε → Prop} {I : σ → Prop}
    (hstep : ∀ s e, I s → ok s e → I (step s e))
    (hgood : ∀ s e, I s → ok s e → good s e) {s : σ} {es : List ε}
    (hs : I s) (hg : Guarded step ok s es) : Guarded step good s es := by
  induction es generalizing s with
  | nil => trivial
  | cons e es ih =>
    exact ⟨hgood s e hs hg.1, ih (hstep s e hs hg.1) hg.2⟩

/-- Guards that say the same of every step say the same of a run. -/
theorem guarded_congr {step : σ → ε → σ} {ok ok' : σ → ε → Prop} (h : ∀ s e, ok s e ↔ ok' s e) :
    ∀ (s : σ) (es : List ε), Guarded step ok s es ↔ Guarded step ok' s es
  | _, [] => Iff.rfl
  | s, e :: es => and_congr (h s e) (guarded_congr h (step s e) es)

/-- Where the guard is what a step needs to keep the invariant, the invariant holds all along the
run exactly when the run is guarded. -/
theorem guarded_iff_always {step : σ → ε → σ} {ok : σ → ε → Prop} {I : σ → Prop}
    (hstep : ∀ s e, I s → (I (step s e) ↔ ok s e)) {s : σ} {es : List ε} (hs : I s) :
    (∀ before, before <+: es → I (run step s before)) ↔ Guarded step ok s es := by
  induction es generalizing s with
  | nil =>
    refine ⟨fun _ => trivial, fun _ before hbefore => ?_⟩
    rw [List.prefix_nil.mp hbefore]
    exact hs
  | cons e es ih =>
    constructor
    · intro h
      have he : I (step s e) := h [e] ⟨es, rfl⟩
      refine ⟨(hstep s e hs).mp he, (ih he).mp fun before hbefore => ?_⟩
      exact h (e :: before) ((List.prefix_cons_inj e).mpr hbefore)
    · rintro ⟨hok, hg⟩ before hbefore
      cases before with
      | nil => exact hs
      | cons f before =>
        obtain ⟨rfl, hrest⟩ := List.cons_prefix_cons.mp hbefore
        exact (ih ((hstep s f hs).mpr hok)).mpr hg before hrest

/-! ## Systems of several parties -/

section Parties

variable {α : Type*} {parties : List α} {f : α → α} {n : ℕ}

/-- A party after something has happened to one of them. -/
theorem mem_modify {a : α} (h : a ∈ parties.modify n f) :
    a ∈ parties ∨ ∃ old ∈ parties[n]?, a = f old := by
  obtain ⟨m, hm⟩ := List.mem_iff_getElem?.mp h
  rw [List.getElem?_modify] at hm
  obtain ⟨old, hold, rfl⟩ := Option.map_eq_some_iff.mp hm
  by_cases hn : n = m
  · subst hn
    exact .inr ⟨old, hold, if_pos rfl⟩
  · rw [if_neg hn]
    exact .inl (List.mem_of_getElem? hold)

/-- What holds of all parties, after something has happened to one of them. -/
theorem forall_mem_modify {P : α → Prop} (h : ∀ a ∈ parties, P a)
    (hf : ∀ a ∈ parties[n]?, P a → P (f a)) : ∀ a ∈ parties.modify n f, P a := by
  intro a ha
  rcases mem_modify ha with hold | ⟨old, hold, rfl⟩
  · exact h a hold
  · exact hf old hold (h old (List.mem_of_getElem? hold))

/-- What happens to one of them does not change what it keeps. -/
theorem map_modify_same {β : Type*} {g : α → β} (hf : ∀ a, g (f a) = g a) :
    ∀ (parties : List α) (n : ℕ), (parties.modify n f).map g = parties.map g
  | [], n => by rw [List.modify_nil]
  | a :: parties, 0 => congrArg (· :: parties.map g) (hf a)
  | a :: parties, n + 1 => congrArg (g a :: ·) (map_modify_same hf parties n)

/-- What the parties of a kind keep, when the one that something happens to stays of the kind. -/
theorem map_filter_modify {β : Type*} {g : α → β} {p : α → Bool} {f : α → α} :
    ∀ {parties : List α} {n : ℕ}, (∀ a ∈ parties[n]?, p (f a) = p a ∧ g (f a) = g a) →
      ((parties.modify n f).filter p).map g = (parties.filter p).map g
  | [], n, _ => by rw [List.modify_nil]
  | a :: parties, 0, h => by
    obtain ⟨hp, hg⟩ := h a rfl
    rw [List.modify_zero_cons, List.filter_cons, List.filter_cons, hp]
    split
    · rw [List.map_cons, List.map_cons, hg]
    · rfl
  | a :: parties, n + 1, h => by
    have ih := @map_filter_modify _ g p f parties n h
    rw [List.modify_succ_cons, List.filter_cons, List.filter_cons]
    split
    · rw [List.map_cons, List.map_cons, ih]
    · exact ih

/-- How many parties are of a kind: the others, and the one that something happens to. -/
theorem countP_modify (p : α → Bool) (f : α → α) : ∀ (parties : List α) (n : ℕ),
    (parties.modify n f).countP p =
      (parties.eraseIdx n).countP p + if parties[n]?.any fun a => p (f a) then 1 else 0
  | [], n => by simp
  | a :: parties, 0 => by simp [List.countP_cons]
  | a :: parties, n + 1 => by
    rw [List.modify_succ_cons, List.eraseIdx_cons_succ, List.countP_cons, List.countP_cons,
      countP_modify p f parties n, List.getElem?_cons_succ]
    exact Nat.add_right_comm _ _ _

theorem countP_modify_le_succ (p : α → Bool) (f : α → α) (parties : List α) (n : ℕ) :
    (parties.modify n f).countP p ≤ (parties.eraseIdx n).countP p + 1 := by
  rw [countP_modify]
  split
  · exact Nat.le_refl _
  · exact Nat.le_succ _

/-- The one it happens to does not become one of the kind. -/
theorem countP_modify_le {p : α → Bool} (hf : ∀ a ∈ parties[n]?, p (f a) = true → p a = true) :
    (parties.modify n f).countP p ≤ parties.countP p := by
  have hsame : parties.countP p = (parties.modify n id).countP p := by rw [List.modify_id]
  rw [hsame, countP_modify, countP_modify]
  refine Nat.add_le_add_left ?_ _
  cases hn : parties[n]? with
  | none => exact Nat.le_refl _
  | some a =>
    show (if p (f a) = true then 1 else 0) ≤ if p a = true then 1 else 0
    split
    · exact Nat.le_of_eq (if_pos (hf a hn ‹_›)).symm
    · exact Nat.zero_le _

end Parties

/-! ## Steps that can fail -/

theorem bind_ok {α β : Type u} {x : Except E α} {a : α} (h : x = .ok a)
    (f : α → Except E β) : (x >>= f) = f a := by
  rw [h]
  rfl

theorem bind_error {α β : Type u} {x : Except E α} {err : E} (h : x = .error err)
    (f : α → Except E β) : (x >>= f) = .error err := by
  rw [h]
  rfl

theorem of_bind_ok {α β : Type u} {x : Except E α} {f : α → Except E β} {b : β}
    (h : (x >>= f) = .ok b) : ∃ a, x = .ok a ∧ f a = .ok b := by
  cases hx : x with
  | error err =>
    rw [bind_error hx] at h
    cases h
  | ok a => exact ⟨a, rfl, (bind_ok hx f).symm.trans h⟩

theorem of_map_ok {α β : Type u} {x : Except E α} {f : α → β} {b : β}
    (h : x.map f = .ok b) : ∃ a, x = .ok a ∧ f a = b := by
  cases x with
  | error err => cases h
  | ok a => exact ⟨a, rfl, Except.ok.inj h⟩

/-- The state after a list of events, or the first failure. -/
def tryRun {σ : Type u} (step : σ → ε → Except E σ) : σ → List ε → Except E σ
  | s, [] => .ok s
  | s, e :: es => step s e >>= fun s' => tryRun step s' es

/-- Every event up to the first failure meets `ok` in the state it is executed
in. -/
def TryGuarded (step : σ → ε → Except E σ) (ok : σ → ε → Prop) : σ → List ε → Prop
  | _, [] => True
  | s, e :: es => ok s e ∧ ∀ s', step s e = .ok s' → TryGuarded step ok s' es

theorem tryGuarded_cons {step : σ → ε → Except E σ} {ok : σ → ε → Prop} {s s' : σ} {e : ε}
    {es : List ε} (he : ok s e) (hstep : step s e = .ok s')
    (hg : TryGuarded step ok s' es) : TryGuarded step ok s (e :: es) := by
  refine ⟨he, fun t ht => ?_⟩
  obtain rfl : s' = t := Except.ok.inj (hstep.symm.trans ht)
  exact hg

/-- What holds of all steps holds along every run. -/
theorem tryGuarded_of_forall {step : σ → ε → Except E σ} {ok : σ → ε → Prop}
    (h : ∀ s e, ok s e) : ∀ (es : List ε) (s : σ), TryGuarded step ok s es
  | [], _ => trivial
  | e :: es, s => ⟨h s e, fun s' _ => tryGuarded_of_forall h es s'⟩

theorem tryGuarded_cons_iff {step : σ → ε → Except E σ} {ok : σ → ε → Prop} {s s' : σ} {e : ε}
    {es : List ε} (hstep : step s e = .ok s') :
    TryGuarded step ok s (e :: es) ↔ ok s e ∧ TryGuarded step ok s' es :=
  ⟨fun h => ⟨h.1, h.2 s' hstep⟩, fun h => tryGuarded_cons h.1 hstep h.2⟩

/-- After a failure nothing is asked. -/
theorem tryGuarded_cons_error {step : σ → ε → Except E σ} {ok : σ → ε → Prop} {s : σ} {e : ε}
    {es : List ε} {err : E} (hstep : step s e = .error err) :
    TryGuarded step ok s (e :: es) ↔ ok s e := by
  refine ⟨fun h => h.1, fun h => ⟨h, fun s' hs' => ?_⟩⟩
  rw [hstep] at hs'
  cases hs'

/-- A guard that can be decided can be decided along a run that may fail. -/
instance decidableTryGuarded {step : σ → ε → Except E σ} {ok : σ → ε → Prop}
    [∀ s e, Decidable (ok s e)] : ∀ s es, Decidable (TryGuarded step ok s es)
  | _, [] => inferInstanceAs (Decidable True)
  | s, e :: es =>
    match hstep : step s e with
    | .error _ => decidable_of_iff (ok s e) (tryGuarded_cons_error hstep).symm
    | .ok s' =>
      have : Decidable (TryGuarded step ok s' es) := decidableTryGuarded s' es
      decidable_of_iff (ok s e ∧ TryGuarded step ok s' es) (tryGuarded_cons_iff hstep).symm

theorem exists_ok_of_isSome {α : Type u} {x : Except E α} (h : x.toOption.isSome = true) :
    ∃ a, x = .ok a := by
  cases x with
  | error err => cases h
  | ok a => exact ⟨a, rfl⟩

theorem of_toOption_map {α β : Type u} {x : Except E α} {f : α → β} {b : β}
    (h : x.toOption.map f = some b) : ∃ a, x = .ok a ∧ f a = b := by
  cases x with
  | error err => cases h
  | ok a => exact ⟨a, rfl, Option.some.inj h⟩

theorem tryRun_append {step : σ → ε → Except E σ} {t u : σ} : ∀ {es fs : List ε} {s : σ},
    tryRun step s es = .ok t → tryRun step t fs = .ok u → tryRun step s (es ++ fs) = .ok u
  | [], _, s, h, h' => by
    obtain rfl := Except.ok.inj h
    exact h'
  | e :: es, fs, s, h, h' => by
    obtain ⟨s', he, hes⟩ := of_bind_ok h
    exact (bind_ok he _).trans (tryRun_append hes h')

theorem of_tryRun_append {step : σ → ε → Except E σ} {u : σ} {fs : List ε} :
    ∀ {es : List ε} {s : σ}, tryRun step s (es ++ fs) = .ok u →
      ∃ t, tryRun step s es = .ok t ∧ tryRun step t fs = .ok u
  | [], s, h => ⟨s, rfl, h⟩
  | e :: es, s, h => by
    obtain ⟨s', he, h⟩ := of_bind_ok h
    obtain ⟨t, hes, hfs⟩ := of_tryRun_append h
    exact ⟨t, (bind_ok he _).trans hes, hfs⟩

theorem tryRun_concat (step : σ → ε → Except E σ) (e : ε) : ∀ (es : List ε) (s : σ),
    tryRun step s (es ++ [e]) = tryRun step s es >>= fun s' => step s' e
  | [], s => by
    show (step s e >>= fun s' => .ok s') = step s e
    cases step s e <;> rfl
  | d :: es, s => by
    show (step s d >>= fun s' => tryRun step s' (es ++ [e])) = _
    cases hd : step s d with
    | error err =>
      rw [bind_error rfl, tryRun, bind_error hd]
      rfl
    | ok s' => rw [bind_ok rfl, tryRun_concat step e es, tryRun, bind_ok hd]

/-- The last event of a guarded run. -/
theorem TryGuarded.last {step : σ → ε → Except E σ} {ok : σ → ε → Prop} {e : ε} {t : σ} :
    ∀ {es : List ε} {s : σ}, TryGuarded step ok s (es ++ [e]) → tryRun step s es = .ok t →
      ok t e
  | [], s, hg, hrun => by
    obtain rfl : s = t := Except.ok.inj hrun
    exact hg.1
  | d :: es, s, hg, hrun => by
    obtain ⟨s', hd, hrest⟩ := of_bind_ok hrun
    exact TryGuarded.last (hg.2 s' hd) hrest

/-- An invariant that guarded steps preserve while they succeed holds where a run ends. -/
theorem tryRun_keeps {step : σ → ε → Except E σ} {ok : σ → ε → Prop} {I : σ → Prop}
    (hstep : ∀ s e s', I s → ok s e → step s e = .ok s' → I s') {t : σ} :
    ∀ {es : List ε} {s : σ}, I s → TryGuarded step ok s es → tryRun step s es = .ok t → I t
  | [], s, hs, _, hrun => by
    obtain rfl : s = t := Except.ok.inj hrun
    exact hs
  | e :: es, s, hs, hg, hrun => by
    obtain ⟨s', he, hrest⟩ := of_bind_ok hrun
    exact tryRun_keeps hstep (hstep s e s' hs hg.1 he) (hg.2 s' he) hrest

/-- A run whose steps all take something away is no longer than what there is to take. -/
theorem tryRun_bounded {step : σ → ε → Except E σ} {I : σ → Prop} {ok : ε → Prop} {work : σ → ℕ}
    (hstep : ∀ s e s', I s → ok e → step s e = .ok s' → I s' ∧ work s' < work s) {t : σ} :
    ∀ {es : List ε} {s : σ}, I s → (∀ e ∈ es, ok e) → tryRun step s es = .ok t →
      I t ∧ es.length + work t ≤ work s
  | [], s, hs, _, hrun => by
    obtain rfl : s = t := Except.ok.inj hrun
    exact ⟨hs, Nat.le_of_eq (Nat.zero_add _)⟩
  | e :: es, s, hs, hok, hrun => by
    obtain ⟨s', he, hrest⟩ := of_bind_ok hrun
    obtain ⟨hs', hless⟩ := hstep s e s' hs (hok e List.mem_cons_self) he
    obtain ⟨ht, hlength⟩ :=
      tryRun_bounded hstep hs' (fun a ha => hok a (List.mem_cons_of_mem e ha)) hrest
    exact ⟨ht, by rw [List.length_cons]; omega⟩

/-- **No failure.** If guarded steps succeed and preserve the invariant, a
guarded run succeeds and ends in it. -/
theorem tryRun_invariant {step : σ → ε → Except E σ} {ok : σ → ε → Prop} {I : σ → Prop}
    (hstep : ∀ s e, I s → ok s e → ∃ s', step s e = .ok s' ∧ I s') {s : σ} {es : List ε}
    (hs : I s) (hg : TryGuarded step ok s es) :
    ∃ s', tryRun step s es = .ok s' ∧ I s' := by
  induction es generalizing s with
  | nil => exact ⟨s, rfl, hs⟩
  | cons e es ih =>
    obtain ⟨s', he, hs'⟩ := hstep s e hs hg.1
    obtain ⟨t, hrun, ht⟩ := ih hs' (hg.2 s' he)
    exact ⟨t, (bind_ok he _).trans hrun, ht⟩

/-- A property of single steps that the invariant and the guard give holds at
every step of a guarded run. -/
theorem tryGuarded_imp {step : σ → ε → Except E σ} {ok good : σ → ε → Prop} {I : σ → Prop}
    (hstep : ∀ s e s', I s → step s e = .ok s' → I s')
    (hgood : ∀ s e, I s → ok s e → good s e) {s : σ} {es : List ε}
    (hs : I s) (hg : TryGuarded step ok s es) : TryGuarded step good s es := by
  induction es generalizing s with
  | nil => trivial
  | cons e es ih =>
    exact ⟨hgood s e hs hg.1, fun s' he => ih (hstep s e s' hs he) (hg.2 s' he)⟩

/-- A run avoids a failure exactly if each of its steps does, where `ok` tells which steps do
and the invariant may look at the events that are left. -/
theorem tryRun_avoids {step : σ → ε → Except E σ} {ok : σ → ε → Prop} {I : σ → List ε → Prop}
    {bad : E} (hstep : ∀ s e es s', I s (e :: es) → step s e = .ok s' → I s' es)
    (hok : ∀ s e es, I s (e :: es) → (step s e ≠ .error bad ↔ ok s e)) :
    ∀ {es : List ε} {s : σ}, I s es → (tryRun step s es ≠ .error bad ↔ TryGuarded step ok s es)
  | [], s, _ => by
    constructor
    · exact fun _ => trivial
    · exact fun _ hbad => nomatch hbad
  | e :: es, s, hs => by
    rw [tryRun, TryGuarded, ← hok s e es hs]
    cases he : step s e with
    | error err =>
      rw [bind_error rfl]
      constructor
      · exact fun hne => ⟨hne, fun s' hs' => nomatch hs'⟩
      · exact fun h => h.1
    | ok s' =>
      rw [bind_ok rfl, tryRun_avoids hstep hok (hstep s e es s' hs he)]
      constructor
      · intro hrest
        refine ⟨(nomatch ·), fun t ht => ?_⟩
        obtain rfl := Except.ok.inj ht
        exact hrest
      · exact fun h => h.2 s' rfl

end KasmVNC.Lib
