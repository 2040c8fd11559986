import Mathlib.Data.Finset.Basic
import KasmVNC.Lib.Run

/-!
# Presses and releases

Things are pressed and released one after another. Pressing again what is held is
allowed, as a key repeats; releasing what is not held is an error. A list of strokes
is balanced if it runs without an error and leaves nothing held.
-/

namespace KasmVNC.Lib

inductive Stroke (α : Type*)
  | press (a : α)
  | release (a : α)
deriving DecidableEq

namespace Stroke

def key {α : Type*} : Stroke α → α
  | press a => a
  | release a => a

end Stroke

variable {α : Type*} [DecidableEq α]

def strike (held : Finset α) : Stroke α → Except α (Finset α)
  | .press a => .ok (insert a held)
  | .release a => if a ∈ held then .ok (held.erase a) else .error a

theorem of_release {held held' : Finset α} {a : α} (h : strike held (.release a) = .ok held') :
    a ∈ held ∧ held' = held.erase a := by
  by_cases ha : a ∈ held
  · have hok : strike held (.release a) = .ok (held.erase a) := if_pos ha
    exact ⟨ha, (Except.ok.inj (hok.symm.trans h)).symm⟩
  · have herror : strike held (.release a) = .error a := if_neg ha
    cases h.symm.trans herror

/-- The strokes lead from one set of held things to another. -/
def Leads (held : Finset α) (strokes : List (Stroke α)) (held' : Finset α) : Prop :=
  tryRun strike held strokes = .ok held'

def Balanced (strokes : List (Stroke α)) : Prop := Leads ∅ strokes ∅

instance (held held' : Finset α) (strokes : List (Stroke α)) :
    Decidable (Leads held strokes held') := inferInstanceAs (Decidable (_ = _))

instance (strokes : List (Stroke α)) : Decidable (Balanced strokes) :=
  inferInstanceAs (Decidable (Leads _ _ _))

namespace Leads

variable {held held' held'' : Finset α} {s t : List (Stroke α)} {a : α}

theorem nil (held : Finset α) : Leads held [] held := rfl

theorem press (a : α) (held : Finset α) : Leads held [.press a] (insert a held) := rfl

theorem release (h : a ∈ held) : Leads held [.release a] (held.erase a) := by
  have hstrike : strike held (.release a) = .ok (held.erase a) := if_pos h
  exact (bind_ok hstrike _).trans rfl

theorem append (h : Leads held s held') (h' : Leads held' t held'') :
    Leads held (s ++ t) held'' :=
  tryRun_append h h'

/-- Strokes of other things do not care for what else is held. -/
theorem frame (ha : ∀ e ∈ s, e.key ≠ a) (h : Leads held s held') :
    Leads (insert a held) s (insert a held') := by
  induction s generalizing held with
  | nil =>
    obtain rfl := Except.ok.inj h
    exact nil _
  | cons e s ih =>
    obtain ⟨hne, hrest⟩ := List.forall_mem_cons.mp ha
    obtain ⟨held₁, he, hs⟩ := of_bind_ok h
    cases e with
    | press b =>
      obtain rfl := Except.ok.inj he
      have hnext := ih hrest hs
      rw [Finset.insert_comm] at hnext
      exact (press b _).append hnext
    | release b =>
      obtain ⟨hb, rfl⟩ := of_release he
      have hnext := ih hrest hs
      have hcomm : insert a (held.erase b) = (insert a held).erase b :=
        (Finset.erase_insert_of_ne (Ne.symm hne)).symm
      rw [hcomm] at hnext
      exact (release (Finset.mem_insert_of_mem hb)).append hnext

/-- Strokes of other things leave it up. -/
theorem notMem (ha : ∀ e ∈ s, e.key ≠ a) (hout : a ∉ held) (h : Leads held s held') :
    a ∉ held' := by
  induction s generalizing held with
  | nil =>
    obtain rfl := Except.ok.inj h
    exact hout
  | cons e s ih =>
    obtain ⟨hne, hrest⟩ := List.forall_mem_cons.mp ha
    obtain ⟨held₁, he, hs⟩ := of_bind_ok h
    refine ih hrest (fun hin => hout ?_) hs
    cases e with
    | press b =>
      obtain rfl := Except.ok.inj he
      exact (Finset.mem_insert.mp hin).resolve_left (Ne.symm hne)
    | release b =>
      obtain ⟨-, rfl⟩ := of_release he
      exact Finset.mem_of_mem_erase hin

/-- A key that is held around some other strokes. -/
theorem around (hout : a ∉ held) (ha : ∀ e ∈ s, e.key ≠ a) (h : Leads held s held') :
    Leads held ([.press a] ++ s ++ [.release a]) held' := by
  have hframe := ((press a held).append (h.frame ha)).append
    (release (Finset.mem_insert_self a held'))
  rwa [Finset.erase_insert (h.notMem ha hout)] at hframe

/-- Pressing and releasing at once. -/
theorem tap (hout : a ∉ held) : Leads held [.press a, .release a] held :=
  around hout (fun _ h => absurd h List.not_mem_nil) (nil held)

/-- Releasing everything that is held. -/
theorem releaseAll : ∀ {keys : List α} {held : Finset α}, keys.Nodup → held = keys.toFinset →
    Leads held (keys.map .release) ∅
  | [], held, _, hheld => by
    rw [hheld]
    exact nil ∅
  | a :: keys, held, hnodup, hheld => by
    obtain ⟨hout, hnodup⟩ := List.nodup_cons.mp hnodup
    have ha : a ∈ held := by
      rw [hheld]
      exact List.mem_toFinset.mpr List.mem_cons_self
    refine (release ha).append (releaseAll hnodup ?_)
    rw [hheld, List.toFinset_cons]
    exact Finset.erase_insert fun hin => hout (List.mem_toFinset.mp hin)

end Leads

end KasmVNC.Lib
