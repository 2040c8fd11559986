import Mathlib.Algebra.Order.Ring.Nat
import Mathlib.Data.List.Basic
import Mathlib.Tactic.Common

/-!
# Walking along a string

A decoder takes a character off the front of a string and says how many units it was. A loop
does so until the string or its length is at its end. The pointer goes on by what the decoder
says, and the same number is subtracted from an unsigned length: if it is greater than what
was left, the length wraps around, and the next thing the loop does is read outside.

`Chars` and `Overruns` tell the two kinds of strings apart without the loop.
-/

namespace KasmVNC.Lib

universe u

variable {α β : Type*} {σ : Type u}

inductive WalkFault
  /-- A unit behind the end has been read. -/
  | outOfBounds
  | outOfTurns
deriving DecidableEq, Repr

/-- `a - b` of two `size_t`. -/
def sizeSub (a b : ℕ) : ℕ := if b ≤ a then a - b else a + 2 ^ 64 - b

section Loop

variable [DecidableEq α]

/-- Whatever is in `src` may be read. -/
def walkFrom (nul : α) (next : List α → β × ℕ) (put : σ → β → σ) :
    ℕ → ℕ → List α → σ → Except WalkFault σ
  | 0, _, _, _ => .error .outOfTurns
  | turns + 1, in_len, src, acc =>
    if in_len = 0 then .ok acc
    else
      match src with
      | [] => .error .outOfBounds
      | b :: _ =>
        if b = nul then .ok acc
        else
          let r := next (src.take in_len)
          walkFrom nul next put turns (sizeSub in_len r.2) (src.drop r.2) (put acc r.1)

/-- The loop on a string of that length. There are as many turns as units, and a last one. -/
def walkAll (nul : α) (next : List α → β × ℕ) (put : σ → β → σ) (src : List α) (acc : σ) :
    Except WalkFault σ :=
  walkFrom nul next put (src.length + 1) src.length src acc

end Loop

/-! ## Characters -/

/-- The characters of a string up to its end or the first `nul` that the decoder comes to. -/
inductive Chars (nul : α) (next : List α → β × ℕ) : List α → List β → Prop
  | nil : Chars nul next [] []
  | nul (src : List α) : Chars nul next (nul :: src) []
  | char {b : α} {src : List α} {cs : List β} : b ≠ nul →
      (next (b :: src)).2 ≤ (b :: src).length →
      Chars nul next ((b :: src).drop (next (b :: src)).2) cs →
      Chars nul next (b :: src) ((next (b :: src)).1 :: cs)

/-- The decoder comes to a character for which it takes more units than there are. -/
inductive Overruns (nul : α) (next : List α → β × ℕ) : List α → Prop
  | here {b : α} {src : List α} : b ≠ nul → (b :: src).length < (next (b :: src)).2 →
      Overruns nul next (b :: src)
  | later {b : α} {src : List α} : b ≠ nul →
      Overruns nul next ((b :: src).drop (next (b :: src)).2) → Overruns nul next (b :: src)

variable {nul : α} {next : List α → β × ℕ}

theorem Chars.not_overruns {src : List α} {cs : List β} (h : Chars nul next src cs) :
    ¬Overruns nul next src := by
  induction h with
  | nil => exact nofun
  | nul src =>
    intro hover
    cases hover with
    | here hb _ => exact hb rfl
    | later hb _ => exact hb rfl
  | char hb hle _ ih =>
    intro hover
    cases hover with
    | here _ hlt => exact absurd hle (Nat.not_le.mpr hlt)
    | later _ hrest => exact ih hrest

/-- The characters of a string up to a `nul`, which is there. -/
inductive Terminated (nul : α) (next : List α → β × ℕ) : List α → List β → Prop
  | nul (src : List α) : Terminated nul next (nul :: src) []
  | char {b : α} {src : List α} {cs : List β} : b ≠ nul →
      (next (b :: src)).2 ≤ (b :: src).length →
      Terminated nul next ((b :: src).drop (next (b :: src)).2) cs →
      Terminated nul next (b :: src) ((next (b :: src)).1 :: cs)

/-- All characters of a string, where a `nul` is one as well. -/
inductive Decodes (next : List α → β × ℕ) : List α → List β → Prop
  | nil : Decodes next [] []
  | char {b : α} {src : List α} {cs : List β} :
      Decodes next ((b :: src).drop (next (b :: src)).2) cs →
      Decodes next (b :: src) ((next (b :: src)).1 :: cs)

theorem Chars.unique {src : List α} {cs ds : List β} (h : Chars nul next src cs)
    (h' : Chars nul next src ds) : cs = ds := by
  induction h generalizing ds with
  | nil =>
    cases h'
    rfl
  | nul src =>
    cases h' with
    | nul => rfl
    | char hb _ _ => exact absurd rfl hb
  | char hb _ _ ih =>
    cases h' with
    | nul => exact absurd rfl hb
    | char _ _ hrest => rw [ih hrest]

theorem Terminated.chars {src : List α} {cs : List β} (h : Terminated nul next src cs) :
    Chars nul next src cs := by
  induction h with
  | nul src => exact .nul src
  | char hb hle _ ih => exact .char hb hle ih

/-- A string that is put together of characters, and what is behind its end. -/
theorem chars_flatMap {γ : Type*} {encode : γ → List α} {value : γ → β} {tail : List α}
    (hnext : ∀ c rest, next (encode c ++ rest) = (value c, (encode c).length))
    (htail : Chars nul next tail []) : ∀ {cs : List γ},
    (∀ c ∈ cs, ∃ b more, encode c = b :: more ∧ b ≠ nul) →
      Chars nul next (cs.flatMap encode ++ tail) (cs.map value)
  | [], _ => htail
  | c :: cs, hcs => by
    obtain ⟨b, more, hc, hb⟩ := hcs c List.mem_cons_self
    have ih := chars_flatMap hnext htail fun d hd => hcs d (List.mem_cons_of_mem c hd)
    have hread := hnext c (cs.flatMap encode ++ tail)
    rw [List.flatMap_cons, List.append_assoc, List.map_cons]
    generalize cs.flatMap encode ++ tail = rest at ih hread ⊢
    have hchar := @Chars.char α β nul next b (more ++ rest) (cs.map value) hb
    rw [← List.cons_append, ← hc, hread] at hchar
    refine hchar ?_ ?_
    · rw [List.length_append]
      exact Nat.le_add_right _ _
    · rw [List.drop_left]
      exact ih

/-- The places where characters start, for a width that is told by what is there. -/
inductive Starts (nul : α) (width : List α → ℕ) (src : List α) : ℕ → Prop
  | first : Starts nul width src 0
  | after {i : ℕ} {b : α} {rest : List α} : Starts nul width src i → src.drop i = b :: rest →
      b ≠ nul → Starts nul width src (i + width (b :: rest))

theorem Starts.later {width : List α → ℕ} {b : α} {src : List α} {i : ℕ} (hb : b ≠ nul)
    (h : Starts nul width ((b :: src).drop (width (b :: src))) i) :
    Starts nul width (b :: src) (width (b :: src) + i) := by
  induction h with
  | first =>
    have h : Starts nul width (b :: src) (0 + width (b :: src)) := .after .first rfl hb
    rwa [Nat.zero_add] at h
  | after _ hrest hne ih =>
    rw [List.drop_drop] at hrest
    rw [← Nat.add_assoc]
    exact .after ih hrest hne

theorem overruns_of_starts {src rest : List α} {b : α} {i : ℕ}
    (h : Starts nul (fun s => (next s).2) src i) (hrest : src.drop i = b :: rest) (hb : b ≠ nul)
    (hover : Overruns nul next (b :: rest)) : Overruns nul next src := by
  induction h generalizing b rest with
  | first =>
    rw [List.drop_zero] at hrest
    exact hrest ▸ hover
  | @after i c more _ hmore hc ih =>
    refine ih hmore hc (.later hc ?_)
    rw [← hmore, List.drop_drop, hmore, hrest]
    exact hover

/-- More is taken than there is at a place where a character starts. -/
theorem overruns_iff {src : List α} : Overruns nul next src ↔
    ∃ i b rest, Starts nul (fun s => (next s).2) src i ∧ src.drop i = b :: rest ∧ b ≠ nul ∧
      (b :: rest).length < (next (b :: rest)).2 := by
  constructor
  · intro h
    induction h with
    | @here b src hb hlt => exact ⟨0, b, src, .first, rfl, hb, hlt⟩
    | @later b src hb _ ih =>
      obtain ⟨i, c, rest, hstarts, hrest, hc, hlt⟩ := ih
      rw [List.drop_drop] at hrest
      exact ⟨_, c, rest, hstarts.later hb, hrest, hc, hlt⟩
  · rintro ⟨i, b, rest, hstarts, hrest, hb, hlt⟩
    exact overruns_of_starts hstarts hrest hb (.here hb hlt)

/-- Every character is at least one unit, and no more than one unit is missing. -/
structure Advances (next : List α → β × ℕ) : Prop where
  pos : ∀ b src, 0 < (next (b :: src)).2
  le : ∀ src, (next src).2 ≤ src.length + 1

theorem Advances.chars_or_overruns (hnext : Advances next) (nul : α) (src : List α) :
    (∃ cs, Chars nul next src cs) ∨ Overruns nul next src := by
  induction hlength : src.length using Nat.strongRecOn generalizing src with
  | ind n ih =>
    cases src with
    | nil => exact Or.inl ⟨[], .nil⟩
    | cons b src =>
      by_cases hb : b = nul
      · exact Or.inl ⟨[], hb ▸ .nul src⟩
      by_cases hle : (next (b :: src)).2 ≤ (b :: src).length
      · have hpos := hnext.pos b src
        have hless : ((b :: src).drop (next (b :: src)).2).length < n := by
          rw [List.length_drop, hlength]
          exact Nat.sub_lt (hlength ▸ Nat.succ_pos _) hpos
        rcases ih _ hless _ rfl with ⟨cs, hcs⟩ | hover
        · exact Or.inl ⟨_, .char hb hle hcs⟩
        · exact Or.inr (.later hb hover)
      · exact Or.inr (.here hb (Nat.lt_of_not_le hle))

/-- There is a `nul` besides the characters, and it is all there is besides them only if each of
them is one unit. -/
theorem Advances.terminated_length_lt (hnext : Advances next) {src : List α} {cs : List β}
    (h : Terminated nul next src cs) : cs.length < src.length := by
  induction h with
  | nul src => exact Nat.succ_pos _
  | @char b src cs _ _ _ ih =>
    have hpos := hnext.pos b src
    rw [List.length_drop] at ih
    rw [List.length_cons] at ih ⊢
    rw [List.length_cons]
    omega

/-- The first `nul` is the last unit, and in front of it there are characters of one unit. -/
def SingleUnits (nul : α) (next : List α → β × ℕ) (src : List α) : Prop :=
  ∃ front, src = front ++ [nul] ∧ nul ∉ front ∧
    ∀ i < front.length, (next (src.drop i)).2 = 1

theorem SingleUnits.terminated {src : List α} (h : SingleUnits nul next src) :
    ∃ cs, Terminated nul next src cs ∧ src.length = cs.length + 1 := by
  obtain ⟨front, rfl, hnul, hsingle⟩ := h
  induction front with
  | nil => exact ⟨[], .nul [], rfl⟩
  | cons b front ih =>
    rw [List.mem_cons, not_or] at hnul
    have hone : (next (b :: (front ++ [nul]))).2 = 1 := hsingle 0 (Nat.succ_pos _)
    obtain ⟨cs, hcs, hlength⟩ := ih hnul.2 fun i hi => hsingle (i + 1) (Nat.succ_lt_succ hi)
    refine ⟨(next (b :: (front ++ [nul]))).1 :: cs, ?_, congrArg (· + 1) hlength⟩
    rw [List.cons_append]
    refine .char (Ne.symm hnul.1) ?_ ?_
    · rw [hone]
      exact Nat.succ_pos _
    · rw [hone]
      exact hcs

theorem Advances.singleUnits (hnext : Advances next) {src : List α} {cs : List β}
    (h : Terminated nul next src cs) (hlength : src.length = cs.length + 1) :
    SingleUnits nul next src := by
  induction h with
  | nul src =>
    obtain rfl := List.length_eq_zero_iff.mp (Nat.succ.inj hlength)
    exact ⟨[], rfl, List.not_mem_nil, fun i hi => absurd hi (Nat.not_lt_zero i)⟩
  | @char b src cs hb hle hrest ih =>
    have hpos := hnext.pos b src
    have hlt := hnext.terminated_length_lt hrest
    rw [List.length_drop] at hlt
    rw [List.length_cons] at hlt
    rw [List.length_cons, List.length_cons] at hlength
    have hone : (next (b :: src)).2 = 1 := by omega
    rw [hone, List.drop_one, List.tail_cons] at ih
    obtain ⟨front, rfl, hnul, hsingle⟩ := ih (Nat.succ.inj hlength)
    refine ⟨b :: front, rfl, ?_, ?_⟩
    · rw [List.mem_cons, not_or]
      exact ⟨Ne.symm hb, hnul⟩
    · rintro (_ | i) hi
      · exact hone
      · exact hsingle i (Nat.lt_of_succ_lt_succ hi)

/-- Such a string is its characters and a last one, for the `nul`. -/
theorem SingleUnits.decodes {src : List α} {cs : List β} (h : SingleUnits nul next src)
    (hcs : Terminated nul next src cs) (hnul : (next [nul]).2 = 1) :
    Decodes next src (cs ++ [(next [nul]).1]) := by
  obtain ⟨front, rfl, hmem, hsingle⟩ := h
  induction front generalizing cs with
  | nil =>
    cases hcs with
    | nul =>
      refine .char ?_
      rw [hnul]
      exact .nil
    | char hb => exact absurd rfl hb
  | cons b front ih =>
    rw [List.mem_cons, not_or] at hmem
    have hone : (next (b :: (front ++ [nul]))).2 = 1 := hsingle 0 (Nat.succ_pos _)
    rw [List.cons_append] at hcs ⊢
    cases hcs with
    | nul => exact absurd rfl hmem.1
    | char _ _ hrest =>
      refine .char ?_
      rw [hone] at hrest ⊢
      exact ih hrest hmem.2 fun i hi => hsingle (i + 1) (Nat.succ_lt_succ hi)

theorem Advances.length_drop_lt (hnext : Advances next) {b : α} {src : List α} {turns : ℕ}
    (hturns : (b :: src).length < turns + 1) :
    ((b :: src).drop (next (b :: src)).2).length < turns := by
  have hpos := hnext.pos b src
  rw [List.length_drop]
  rw [List.length_cons] at hturns ⊢
  omega

variable [DecidableEq α] {put : σ → β → σ}

/-- One turn. -/
theorem walkFrom_cons {b : α} (hb : b ≠ nul) (turns : ℕ) (src : List α) (acc : σ) :
    walkFrom nul next put (turns + 1) (b :: src).length (b :: src) acc =
      walkFrom nul next put turns (sizeSub (b :: src).length (next (b :: src)).2)
        ((b :: src).drop (next (b :: src)).2) (put acc (next (b :: src)).1) := by
  rw [walkFrom, if_neg (by simp)]
  dsimp only
  rw [if_neg hb, List.take_length]

/-- The loop goes on behind the character. -/
theorem walkFrom_char {b : α} {src : List α} (hb : b ≠ nul)
    (hle : (next (b :: src)).2 ≤ (b :: src).length) (turns : ℕ) (acc : σ) :
    walkFrom nul next put (turns + 1) (b :: src).length (b :: src) acc =
      walkFrom nul next put turns ((b :: src).drop (next (b :: src)).2).length
        ((b :: src).drop (next (b :: src)).2) (put acc (next (b :: src)).1) := by
  rw [walkFrom_cons hb, sizeSub, if_pos hle, List.length_drop]

/-- A string of characters. -/
theorem Advances.walk_chars (hnext : Advances next) {src : List α} {cs : List β}
    (h : Chars nul next src cs) {turns : ℕ} (hturns : src.length < turns) (acc : σ) :
    walkFrom nul next put turns src.length src acc = .ok (cs.foldl put acc) := by
  induction h generalizing turns acc with
  | nil =>
    obtain ⟨turns, rfl⟩ := Nat.exists_eq_add_one_of_ne_zero (Nat.ne_zero_of_lt hturns)
    rfl
  | nul src =>
    obtain ⟨turns, rfl⟩ := Nat.exists_eq_add_one_of_ne_zero (Nat.ne_zero_of_lt hturns)
    rw [walkFrom, if_neg (by simp)]
    exact if_pos rfl
  | char hb hle _ ih =>
    obtain ⟨turns, rfl⟩ := Nat.exists_eq_add_one_of_ne_zero (Nat.ne_zero_of_lt hturns)
    rw [walkFrom_char hb hle, ih (hnext.length_drop_lt hturns)]
    rfl

/-- Where more is taken than there is, the loop reads outside. -/
theorem Advances.walk_overruns (hnext : Advances next) {src : List α}
    (h : Overruns nul next src) {turns : ℕ} (hturns : src.length < turns) (acc : σ) :
    walkFrom nul next put turns src.length src acc = .error .outOfBounds := by
  induction h generalizing turns acc with
  | @here b src hb hlt =>
    have hle := hnext.le (b :: src)
    obtain ⟨turns, rfl⟩ : ∃ m, turns = m + 2 :=
      ⟨turns - 2, by rw [List.length_cons] at hturns; omega⟩
    have hdrop : (b :: src).drop (next (b :: src)).2 = [] :=
      List.drop_eq_nil_of_le (Nat.le_of_lt hlt)
    have hwrapped : sizeSub (b :: src).length (next (b :: src)).2 ≠ 0 := by
      rw [sizeSub, if_neg (Nat.not_le.mpr hlt)]
      omega
    rw [walkFrom_cons hb, hdrop, walkFrom, if_neg hwrapped]
  | @later b src hb hrest ih =>
    obtain ⟨turns, rfl⟩ := Nat.exists_eq_add_one_of_ne_zero (Nat.ne_zero_of_lt hturns)
    have hle : (next (b :: src)).2 ≤ (b :: src).length := by
      by_contra hlt
      rw [List.drop_eq_nil_of_le (Nat.le_of_not_le hlt)] at hrest
      cases hrest
    rw [walkFrom_char hb hle]
    exact ih (hnext.length_drop_lt hturns) _

/-- The loop with a length that is far too great. It ends at a `nul`, or reads outside. -/
theorem Advances.walk_beyond (hnext : Advances next) {extra : ℕ} (hextra : 2 ≤ extra) :
    ∀ {turns : ℕ} {src : List α}, src.length < turns → ∀ acc,
    (∃ cs, Terminated nul next src cs ∧
        walkFrom nul next put turns (src.length + extra) src acc = .ok (cs.foldl put acc)) ∨
      (∀ cs, ¬Terminated nul next src cs) ∧
        walkFrom nul next put turns (src.length + extra) src acc = .error .outOfBounds
  | turns + 1, [], _, acc => by
    refine Or.inr ⟨nofun, ?_⟩
    rw [walkFrom, if_neg (by omega)]
  | turns + 1, b :: src, hturns, acc => by
    have hlimit : (b :: src).length + extra ≠ 0 := by omega
    rw [walkFrom, if_neg hlimit, List.take_of_length_le (Nat.le_add_right _ _)]
    dsimp only
    by_cases hb : b = nul
    · rw [if_pos hb]
      exact Or.inl ⟨[], hb ▸ .nul src, rfl⟩
    rw [if_neg hb]
    have hpos := hnext.pos b src
    have hle := hnext.le (b :: src)
    have hsub : sizeSub ((b :: src).length + extra) (next (b :: src)).2 =
        (b :: src).length + extra - (next (b :: src)).2 := if_pos (by omega)
    rw [hsub]
    by_cases hfits : (next (b :: src)).2 ≤ (b :: src).length
    · have hdrop : (b :: src).length + extra - (next (b :: src)).2 =
          ((b :: src).drop (next (b :: src)).2).length + extra := by
        rw [List.length_drop]
        omega
      rw [hdrop]
      rcases hnext.walk_beyond hextra (hnext.length_drop_lt hturns)
        (put acc (next (b :: src)).1) with ⟨cs, hcs, hwalk⟩ | ⟨hnone, hwalk⟩
      · exact Or.inl ⟨_, .char hb hfits hcs, hwalk⟩
      · refine Or.inr ⟨?_, hwalk⟩
        intro cs hcs
        cases hcs with
        | nul => exact hb rfl
        | char _ _ hrest => exact hnone _ hrest
    · obtain ⟨turns, rfl⟩ : ∃ m, turns = m + 1 :=
        ⟨turns - 1, by rw [List.length_cons] at hturns; omega⟩
      refine Or.inr ⟨?_, ?_⟩
      · intro cs hcs
        cases hcs with
        | nul => exact hb rfl
        | char _ hle' _ => exact hfits hle'
      · rw [List.drop_eq_nil_of_le (by omega), walkFrom, if_neg (by omega)]

end KasmVNC.Lib
