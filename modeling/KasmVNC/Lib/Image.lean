import Mathlib.Algebra.Group.Basic
import Mathlib.Algebra.Group.Int.Defs
import Mathlib.Data.Finset.Basic
import Mathlib.Tactic.Abel

/-!
# Images, overwrites and copies

An image colours the positions of an additive group. Two operations change it:
`paint` overwrites a finite area, `move` copies a finite area onto itself
translated, all pixels at once. A move is a change of variables: the moved
image at `p` is the old image at `origin p`, and so is a list of moves executed
one after another. Facts about copies are therefore facts about `origin`, and
hold for every colouring.
-/

namespace KasmVNC.Lib

variable {P C : Type*} [AddCommGroup P] [DecidableEq P]

/-- Overwrite the area `R` with fresh content. -/
def paint (R : Finset P) (fresh f : P → C) : P → C :=
  fun p => if p ∈ R then fresh p else f p

omit [AddCommGroup P] in
theorem paint_of_mem {R : Finset P} {fresh f : P → C} {p : P} (h : p ∈ R) :
    paint R fresh f p = fresh p := if_pos h

omit [AddCommGroup P] in
theorem paint_of_notMem {R : Finset P} {fresh f : P → C} {p : P} (h : p ∉ R) :
    paint R fresh f p = f p := if_neg h

/-- A copy onto the area `dest` of what lies `delta` before it. -/
structure Move (P : Type*) where
  dest : Finset P
  delta : P

/-- Where the content of `p` comes from. -/
def Move.origin (m : Move P) (p : P) : P :=
  if p ∈ m.dest then p - m.delta else p

/-- Simultaneous copy: every pixel of the destination reads the old image. -/
def move (m : Move P) (f : P → C) : P → C := fun p => f (m.origin p)

theorem Move.origin_of_mem {m : Move P} {p : P} (h : p ∈ m.dest) :
    m.origin p = p - m.delta := if_pos h

theorem Move.origin_of_notMem {m : Move P} {p : P} (h : p ∉ m.dest) :
    m.origin p = p := if_neg h

theorem Move.origin_congr {m n : Move P} {p : P} (hdest : p ∈ m.dest ↔ p ∈ n.dest)
    (hdelta : m.delta = n.delta) : m.origin p = n.origin p := by
  unfold Move.origin
  rw [hdelta]
  exact if_congr hdest rfl rfl

/-! ## Lists of moves -/

/-- Execute a list of moves in order. -/
def moves (ms : List (Move P)) (f : P → C) : P → C :=
  ms.foldl (fun g m => move m g) f

/-- Where a pixel's content comes from after the whole list. -/
def origins : List (Move P) → P → P
  | [], p => p
  | m :: ms, p => m.origin (origins ms p)

/-- `p` is a destination pixel of some move of the list. -/
def WrittenBy (ms : List (Move P)) (p : P) : Prop := ∃ m ∈ ms, p ∈ m.dest

@[simp] theorem moves_cons (m : Move P) (ms : List (Move P)) (f : P → C) :
    moves (m :: ms) f = moves ms (move m f) := rfl

/-- **A list of moves is one change of variables.** -/
theorem moves_apply : ∀ (ms : List (Move P)) (f : P → C) (p : P),
    moves ms f p = f (origins ms p)
  | [], _, _ => rfl
  | m :: ms, f, p => by
    rw [moves_cons, moves_apply ms]
    rfl

theorem origins_of_notWritten : ∀ {ms : List (Move P)} {p : P},
    ¬ WrittenBy ms p → origins ms p = p
  | [], _, _ => rfl
  | m :: ms, p, h => by
    have htail : ¬ WrittenBy ms p := fun ⟨n, hn, hp⟩ =>
      h ⟨n, List.mem_cons_of_mem _ hn, hp⟩
    rw [origins, origins_of_notWritten htail]
    exact Move.origin_of_notMem fun hp => h ⟨m, List.mem_cons_self, hp⟩

theorem origins_append : ∀ (ms ns : List (Move P)) (p : P),
    origins (ms ++ ns) p = origins ms (origins ns p)
  | [], _, _ => rfl
  | m :: ms, ns, p => congrArg m.origin (origins_append ms ns p)

theorem origins_concat (ms : List (Move P)) (m : Move P) (p : P) :
    origins (ms ++ [m]) p = origins ms (m.origin p) := origins_append ms [m] p

omit [AddCommGroup P] [DecidableEq P] in
theorem writtenBy_concat {ms : List (Move P)} {m : Move P} {p : P} :
    WrittenBy (ms ++ [m]) p ↔ WrittenBy ms p ∨ p ∈ m.dest := by
  constructor
  · rintro ⟨n, hn, hp⟩
    rcases List.mem_append.mp hn with hn | hn
    · exact Or.inl ⟨n, hn, hp⟩
    · exact Or.inr (List.mem_singleton.mp hn ▸ hp)
  · rintro (⟨n, hn, hp⟩ | hp)
    · exact ⟨n, List.mem_append_left _ hn, hp⟩
    · exact ⟨m, List.mem_append_right _ List.mem_cons_self, hp⟩

/-! ## Moves that read unwritten content -/

/-- No move of the list reads what a move before it has written. -/
def Clean (ms : List (Move P)) : Prop :=
  ms.Pairwise fun m n => ∀ p ∈ n.dest, p - n.delta ∉ m.dest

omit [DecidableEq P] in
theorem clean_concat {ms : List (Move P)} {m : Move P} :
    Clean (ms ++ [m]) ↔ Clean ms ∧ ∀ p ∈ m.dest, ¬ WrittenBy ms (p - m.delta) := by
  unfold Clean
  rw [List.pairwise_append]
  constructor
  · rintro ⟨hms, -, hcross⟩
    exact ⟨hms, fun p hp ⟨n, hn, hread⟩ => hcross n hn m List.mem_cons_self p hp hread⟩
  · rintro ⟨hms, hread⟩
    refine ⟨hms, List.pairwise_singleton _ _, fun n hn m' hm' p hp hwritten => ?_⟩
    obtain rfl := List.mem_singleton.mp hm'
    exact hread p hp ⟨n, hn, hwritten⟩

/-- Two lists of moves with the same effect on every image. -/
structure SameEffect (ms ns : List (Move P)) : Prop where
  origins : ∀ p, origins ms p = origins ns p
  written : ∀ p, WrittenBy ms p ↔ WrittenBy ns p

theorem SameEffect.refl (ms : List (Move P)) : SameEffect ms ms :=
  ⟨fun _ => rfl, fun _ => Iff.rfl⟩

theorem SameEffect.concat {ms ns : List (Move P)} (h : SameEffect ms ns) (m : Move P) :
    SameEffect (ms ++ [m]) (ns ++ [m]) := by
  refine ⟨fun p => ?_, fun p => ?_⟩
  · rw [origins_concat, origins_concat, h.origins]
  · rw [writtenBy_concat, writtenBy_concat, h.written]

/-- Pieces of one copy, none of which reads what was written before: each of their pixels
comes from where the copy has it from. -/
theorem Clean.origins_of_written {delta : P} {ms : List (Move P)} (hclean : Clean ms)
    (hdelta : ∀ m ∈ ms, m.delta = delta) {p : P} (hp : WrittenBy ms p) :
    origins ms p = p - delta := by
  induction ms using List.reverseRecOn generalizing p with
  | nil =>
    obtain ⟨m, hm, -⟩ := hp
    exact absurd hm List.not_mem_nil
  | append_singleton ms m ih =>
    obtain ⟨hms, hread⟩ := clean_concat.mp hclean
    rw [origins_concat]
    by_cases hdest : p ∈ m.dest
    · have hm : m.delta = delta := hdelta m (List.mem_append_right _ List.mem_cons_self)
      rw [Move.origin_of_mem hdest, origins_of_notWritten (hread p hdest), hm]
    · rw [Move.origin_of_notMem hdest]
      exact ih hms (fun n hn => hdelta n (List.mem_append_left _ hn))
        ((writtenBy_concat.mp hp).resolve_right hdest)

/-- **A copy in pieces.** Executed one after another, they are the copy done at once. -/
theorem Clean.moves_eq {delta : P} {ms : List (Move P)} (hclean : Clean ms)
    (hdelta : ∀ m ∈ ms, m.delta = delta) {dest : Finset P}
    (hdest : ∀ p, p ∈ dest ↔ WrittenBy ms p) (f : P → C) :
    moves ms f = move ⟨dest, delta⟩ f := by
  funext p
  rw [moves_apply]
  refine congrArg f ?_
  by_cases hp : p ∈ dest
  · rw [hclean.origins_of_written hdelta ((hdest p).mp hp), Move.origin_of_mem hp]
  · rw [origins_of_notWritten (fun hw => hp ((hdest p).mpr hw)), Move.origin_of_notMem hp]

/-- One move in the place of two adjacent ones by the same offset, the second of
which does not read what the first one writes. -/
structure Joins (a b c : Move P) : Prop where
  dest : ∀ p, p ∈ c.dest ↔ p ∈ a.dest ∨ p ∈ b.dest
  left : c.delta = a.delta
  right : c.delta = b.delta

omit [DecidableEq P] in
theorem Joins.clean {ms : List (Move P)} {a b c : Move P} (h : Joins a b c)
    (hclean : Clean (ms ++ [a] ++ [b])) : Clean (ms ++ [c]) := by
  obtain ⟨hab, hb⟩ := clean_concat.mp hclean
  obtain ⟨hms, ha⟩ := clean_concat.mp hab
  refine clean_concat.mpr ⟨hms, fun p hp hwritten => ?_⟩
  rcases (h.dest p).mp hp with hpa | hpb
  · exact ha p hpa (h.left ▸ hwritten)
  · exact hb p hpb (writtenBy_concat.mpr (Or.inl (h.right ▸ hwritten)))

theorem Joins.sameEffect {ms : List (Move P)} {a b c : Move P} (h : Joins a b c)
    (hclean : Clean (ms ++ [a] ++ [b])) : SameEffect (ms ++ [c]) (ms ++ [a] ++ [b]) := by
  obtain ⟨-, hb⟩ := clean_concat.mp hclean
  refine ⟨fun p => ?_, fun p => ?_⟩
  · rw [origins_concat, origins_concat, origins_concat]
    refine congrArg (KasmVNC.Lib.origins ms) ?_
    by_cases hpb : p ∈ b.dest
    · have hsrc : p - b.delta ∉ a.dest := fun hread =>
        hb p hpb (writtenBy_concat.mpr (Or.inr hread))
      rw [Move.origin_of_mem ((h.dest p).mpr (Or.inr hpb)), Move.origin_of_mem hpb,
        Move.origin_of_notMem hsrc, h.right]
    · rw [Move.origin_of_notMem hpb]
      by_cases hpa : p ∈ a.dest
      · rw [Move.origin_of_mem ((h.dest p).mpr (Or.inl hpa)), Move.origin_of_mem hpa, h.left]
      · rw [Move.origin_of_notMem hpa, Move.origin_of_notMem fun hpc =>
          ((h.dest p).mp hpc).elim hpa hpb]
  · rw [writtenBy_concat, writtenBy_concat, writtenBy_concat, h.dest, or_assoc]

/-- Whatever the list writes is what the new image has there. -/
def Reproduces (old new : P → C) (ms : List (Move P)) : Prop :=
  ∀ p, WrittenBy ms p → old (origins ms p) = new p

theorem Reproduces.congr {old new : P → C} {ms ns : List (Move P)} (h : Reproduces old new ns)
    (hsame : SameEffect ms ns) : Reproduces old new ms := by
  intro p hp
  rw [hsame.origins]
  exact h p ((hsame.written p).mp hp)

/-- A further move that reads unwritten content. -/
theorem Reproduces.concat {old new : P → C} {ms : List (Move P)} {m : Move P}
    (h : Reproduces old new ms) (hclean : Clean (ms ++ [m]))
    (hm : ∀ p ∈ m.dest, old (p - m.delta) = new p) : Reproduces old new (ms ++ [m]) := by
  intro p hp
  rw [origins_concat]
  by_cases hdest : p ∈ m.dest
  · rw [Move.origin_of_mem hdest, origins_of_notWritten ((clean_concat.mp hclean).2 p hdest)]
    exact hm p hdest
  · rw [Move.origin_of_notMem hdest]
    exact h p ((writtenBy_concat.mp hp).resolve_right hdest)

end KasmVNC.Lib
