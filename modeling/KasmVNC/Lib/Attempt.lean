import KasmVNC.Lib.Checked

/-!
# Attempts

An attempt may fail, which is a mistake of the program, or give up, which is not.
A loop of attempts goes through numbers up to a limit and may pass over some of
them. Its rule: what each turn carries on to where it goes on holds at the limit.
-/

namespace KasmVNC.Lib

/-- A computation that may give up: `none`. -/
abbrev Attempt (σ : Type) := Except Fault (Option σ)

variable {σ τ : Type}

namespace Attempt

def andThen (r : Attempt σ) (f : σ → Attempt τ) : Attempt τ :=
  match r with
  | .error e => .error e
  | .ok none => .ok none
  | .ok (some s) => f s

/-- A turn of a loop says by how much to go on. -/
def loop (limit : ℕ) (body : ℕ → σ → Attempt (ℕ × σ)) : ℕ → ℕ → σ → Attempt σ
  | 0, _, s => .ok (some s)
  | turns + 1, i, s =>
    if i < limit then
      (body i s).andThen fun r => loop limit body turns (i + r.1) r.2
    else .ok (some s)

/-- The loop from a number on. There are at most as many turns as numbers. -/
def loopFrom (i limit : ℕ) (body : ℕ → σ → Attempt (ℕ × σ)) (s : σ) : Attempt σ :=
  loop limit body (limit - i) i s

/-- The loop that passes over nothing. -/
def eachFrom (i limit : ℕ) (body : ℕ → σ → Attempt σ) (s : σ) : Attempt σ :=
  loopFrom i limit (fun i s => (body i s).andThen fun s' => .ok (some (1, s'))) s

end Attempt

/-- The attempt gives up or ends in a state with a property; it does not fail. -/
def Ends (r : Attempt σ) (P : σ → Prop) : Prop :=
  r = .ok none ∨ ∃ s, r = .ok (some s) ∧ P s

namespace Ends

variable {P : σ → Prop} {Q : τ → Prop}

theorem done {s : σ} (h : P s) : Ends (.ok (some s)) P := Or.inr ⟨s, rfl, h⟩

theorem givesUp : Ends (.ok none) P := Or.inl rfl

theorem mono {r : Attempt σ} {R : σ → Prop} (hr : Ends r P) (h : ∀ s, P s → R s) : Ends r R := by
  rcases hr with hnone | ⟨s, hs, hP⟩
  · exact Or.inl hnone
  · exact Or.inr ⟨s, hs, h s hP⟩

theorem andThen {r : Attempt σ} {f : σ → Attempt τ} (hr : Ends r P)
    (hf : ∀ s, P s → Ends (f s) Q) : Ends (r.andThen f) Q := by
  rcases hr with rfl | ⟨s, rfl, hs⟩
  · exact Or.inl rfl
  · exact hf s hs

/-- The induction over the turns. -/
theorem loop {limit : ℕ} {body : ℕ → σ → Attempt (ℕ × σ)} {I : ℕ → σ → Prop}
    (hbody : ∀ i < limit, ∀ s, I i s →
      Ends (body i s) fun r => (0 < r.1 ∧ i + r.1 ≤ limit) ∧ I (i + r.1) r.2) :
    ∀ {turns i : ℕ} {s : σ}, i ≤ limit → limit ≤ i + turns → I i s →
      Ends (Attempt.loop limit body turns i s) (I limit)
  | 0, i, s, hi, hturns, h => by
    obtain rfl : i = limit := by omega
    exact done h
  | turns + 1, i, s, hi, hturns, h => by
    rw [Attempt.loop]
    by_cases hlt : i < limit
    · rw [if_pos hlt]
      refine (hbody i hlt s h).andThen fun r hr => ?_
      obtain ⟨⟨hpos, hle⟩, hr⟩ := hr
      exact Ends.loop hbody hle (by omega) hr
    · rw [if_neg hlt]
      obtain rfl : i = limit := by omega
      exact done h

/-- **The rule for loops.** -/
theorem loopFrom {i limit : ℕ} {body : ℕ → σ → Attempt (ℕ × σ)} {s : σ} (I : ℕ → σ → Prop)
    (hi : i ≤ limit) (h : I i s)
    (hbody : ∀ i < limit, ∀ s, I i s →
      Ends (body i s) fun r => (0 < r.1 ∧ i + r.1 ≤ limit) ∧ I (i + r.1) r.2) :
    Ends (Attempt.loopFrom i limit body s) (I limit) :=
  Ends.loop hbody hi (by omega) h

theorem eachFrom {i limit : ℕ} {body : ℕ → σ → Attempt σ} {s : σ} (I : ℕ → σ → Prop)
    (hi : i ≤ limit) (h : I i s) (hbody : ∀ i < limit, ∀ s, I i s → Ends (body i s) (I (i + 1))) :
    Ends (Attempt.eachFrom i limit body s) (I limit) := by
  refine Ends.loopFrom I hi h fun i hlt s hs => ?_
  exact (hbody i hlt s hs).andThen fun s' hs' => done ⟨⟨Nat.one_pos, hlt⟩, hs'⟩

end Ends

end KasmVNC.Lib
