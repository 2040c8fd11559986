import Mathlib.Data.Finset.Basic
import Mathlib.Data.Option.Basic

/-!
# Plans

A copy of an image lags behind. For each place, either the content itself will be sent, or the
content is there already, at this place or at another one, and will be moved. The plan says which.
Of some places of the copy it says nothing: they are free.
-/

namespace KasmVNC.Lib

variable {P C : Type*}

/-- From which place of the copy each place will be taken, unless its content will be sent. -/
abbrev Plan (P : Type*) := P → Option P

namespace Plan

/-- The plan makes the image of the copy, on `D`. -/
def Shows (plan : Plan P) (D free : Finset P) (copy image : P → C) : Prop :=
  ∀ p ∈ D, ∀ x ∈ plan p, x ∉ free → copy x = image p

/-- The plan for what `next` makes of the image. -/
def andThen (plan next : Plan P) : Plan P := fun p => (next p).bind plan

/-- A plan promises no more than another one. -/
def Within (D free : Finset P) (plan plan' : Plan P) : Prop :=
  ∀ p ∈ D, ∀ x ∈ plan p, x ∉ free → x ∈ plan' p

/-- The copy had this place of the image right already. -/
def Settled (D free : Finset P) (plan : Plan P) (x : P) : Prop := x ∈ D ∧ x ∈ plan x ∧ x ∉ free

/-- Something is sent: `sent` has the places that are moved, and the others are right if they are
`fresh`. Then `x` has the content of `p` if that was moved there, or sent, or has been there. -/
def Delivers (D free fresh : Finset P) (sent plan : Plan P) (p x : P) : Prop :=
  (sent x = none → x ∈ fresh ∧ (x = p ∨ Settled D free plan x ∧ x ∈ plan p)) ∧
    ∀ y ∈ sent x, y ∈ plan p ∧ y ∉ free

/-- What the plan promises afterwards has been delivered. -/
def Sends (D free free' fresh : Finset P) (sent plan plan' : Plan P) : Prop :=
  ∀ p ∈ D, ∀ x ∈ plan' p, x ∉ free' → Delivers D free fresh sent plan p x

variable {D free free' fresh : Finset P} {plan plan' next sent : Plan P}
  {copy copy' mid image : P → C}

theorem mem_andThen {p x : P} : x ∈ plan.andThen next p ↔ ∃ q ∈ next p, x ∈ plan q := by
  unfold andThen
  exact Option.mem_bind_iff

theorem Shows.andThen (h : plan.Shows D free copy mid) (hnext : next.Shows D ∅ mid image)
    (hinside : ∀ p ∈ D, ∀ q ∈ next p, q ∈ D) : (plan.andThen next).Shows D free copy image := by
  intro p hp x hx hfree
  obtain ⟨q, hq, hxq⟩ := mem_andThen.mp hx
  exact (h q (hinside p hp q hq) x hxq hfree).trans (hnext p hp q hq (Finset.notMem_empty q))

theorem Shows.within (h : plan'.Shows D free copy image) (hwithin : Within D free plan plan') :
    plan.Shows D free copy image :=
  fun p hp x hx hfree => h p hp x (hwithin p hp x hx hfree) hfree

/-- What was promised is kept, and what has been sent is right. -/
theorem Shows.sends (h : plan.Shows D free copy image)
    (hsends : Sends D free free' fresh sent plan plan')
    (hmoved : ∀ x, ∀ y ∈ sent x, copy' x = copy y)
    (hfresh : ∀ x ∈ fresh, sent x = none → copy' x = image x) :
    plan'.Shows D free' copy' image := by
  intro p hp x hx hfree
  obtain ⟨hnew, hold⟩ := hsends p hp x hx hfree
  cases hs : sent x with
  | none =>
    obtain ⟨hin, hcase⟩ := hnew hs
    rw [hfresh x hin hs]
    rcases hcase with rfl | ⟨⟨hxD, hxx, hxfree⟩, hxp⟩
    · rfl
    · exact (h x hxD x hxx hxfree).symm.trans (h p hp x hxp hxfree)
  | some y =>
    obtain ⟨hy, hfree⟩ := hold y hs
    exact (hmoved x y hs).trans (h p hp y hy hfree)

/-- A plan that leaves everything to be sent. -/
theorem shows_of_none (h : ∀ p ∈ D, plan p = none) (copy image : P → C) :
    plan.Shows D free copy image := by
  intro p hp x hx
  rw [h p hp] at hx
  cases hx

end Plan

end KasmVNC.Lib
