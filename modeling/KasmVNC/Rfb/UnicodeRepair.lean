import KasmVNC.Rfb.UnicodeRoundTrip
import Mathlib.Data.List.TakeWhile

/-!
# Unpaired surrogates

A surrogate without its other half is no character. It is replaced by U+FFFD, and low ones that
stand next to each other may share a replacement. `utf16ToUCS4` skips more than that: every unit
behind an unpaired low surrogate that has the bit of the low surrogates, whatever it stands for.
-/

namespace KasmVNC.Rfb

open KasmVNC.Lib

/-! ## Repairing a string -/

def unitChar (u : Wchar) : Char := Char.ofNat u.toNat

def pairChar (u v : Wchar) : Char := Char.ofNat (pairValue u v)

def replacementChar : Char := Char.ofNat replacement

/-- The characters of a string up to its zero, with a replacement for every unpaired surrogate.
`behind` says that the unit before is an unpaired low one, which may share its replacement. -/
def repaired (share : Bool) : Bool → List Wchar → List Char
  | _, [] => []
  | behind, u :: src =>
    if IsLow u then
      (if share && behind then [] else [replacementChar]) ++ repaired share true src
    else if IsHigh u then
      match src with
      | [] => [replacementChar]
      | v :: rest =>
        if IsLow v then pairChar u v :: repaired share false rest
        else replacementChar :: repaired share false (v :: rest)
    else if u = 0 then [] else unitChar u :: repaired share false src

/-- No unit with the bit stands behind an unpaired low surrogate, or only others that may share
its replacement. -/
def NothingSkipped (share : Bool) : Bool → List Wchar → Prop
  | _, [] => True
  | behind, u :: src =>
    (behind = true → HasLowBit u → share = true ∧ IsLow u) ∧
      if IsLow u then NothingSkipped share true src
      else if IsHigh u then
        match src with
        | [] => True
        | v :: rest =>
          if IsLow v then NothingSkipped share false rest
          else NothingSkipped share false (v :: rest)
      else if u = 0 then True else NothingSkipped share false src

variable {share behind : Bool} {u v : Wchar} {src : List Wchar}

section Equations

theorem repaired_cons : repaired share behind (u :: src) =
    if IsLow u then
      (if share && behind then [] else [replacementChar]) ++ repaired share true src
    else if IsHigh u then
      match src with
      | [] => [replacementChar]
      | v :: rest =>
        if IsLow v then pairChar u v :: repaired share false rest
        else replacementChar :: repaired share false (v :: rest)
    else if u = 0 then [] else unitChar u :: repaired share false src := by
  rw [repaired.eq_def]

theorem repaired_low (h : IsLow u) : repaired share behind (u :: src) =
    (if share && behind then [] else [replacementChar]) ++ repaired share true src := by
  rw [repaired_cons, if_pos h]

theorem repaired_pair (hu : IsHigh u) (hv : IsLow v) :
    repaired share behind (u :: v :: src) = pairChar u v :: repaired share false src := by
  rw [repaired_cons, if_neg hu.not_isLow, if_pos hu]
  exact if_pos hv

theorem repaired_alone (hu : IsHigh u) (h : ∀ v ∈ src.head?, ¬IsLow v) :
    repaired share behind (u :: src) = replacementChar :: repaired share false src := by
  rw [repaired_cons, if_neg hu.not_isLow, if_pos hu]
  cases src with
  | nil => rfl
  | cons v src => exact if_neg (h v rfl)

theorem repaired_unit (hlow : ¬IsLow u) (hhigh : ¬IsHigh u) (hu : u ≠ 0) :
    repaired share behind (u :: src) = unitChar u :: repaired share false src := by
  rw [repaired_cons, if_neg hlow, if_neg hhigh, if_neg hu]

theorem repaired_zero : repaired share behind (0 :: src) = [] := by
  rw [repaired_cons, if_neg (by decide), if_neg (by decide), if_pos rfl]

theorem nothingSkipped_cons : NothingSkipped share behind (u :: src) ↔
    (behind = true → HasLowBit u → share = true ∧ IsLow u) ∧
      if IsLow u then NothingSkipped share true src
      else if IsHigh u then
        match src with
        | [] => True
        | v :: rest =>
          if IsLow v then NothingSkipped share false rest
          else NothingSkipped share false (v :: rest)
      else if u = 0 then True else NothingSkipped share false src := by
  rw [NothingSkipped.eq_def]

theorem nothingSkipped_low (h : IsLow u) : NothingSkipped share behind (u :: src) ↔
    (behind = true → share = true) ∧ NothingSkipped share true src := by
  rw [nothingSkipped_cons, if_pos h]
  simp [h, h.hasLowBit]

theorem nothingSkipped_pair (hu : IsHigh u) (hv : IsLow v) :
    NothingSkipped share behind (u :: v :: src) ↔ NothingSkipped share false src := by
  rw [nothingSkipped_cons, if_neg hu.not_isLow, if_pos hu]
  dsimp only
  rw [if_pos hv]
  simp [hu.not_hasLowBit]

theorem nothingSkipped_alone (hu : IsHigh u) (h : ∀ v ∈ src.head?, ¬IsLow v) :
    NothingSkipped share behind (u :: src) ↔ NothingSkipped share false src := by
  rw [nothingSkipped_cons, if_neg hu.not_isLow, if_pos hu]
  cases src with
  | nil => simp [hu.not_hasLowBit, NothingSkipped]
  | cons v src => simp [hu.not_hasLowBit, h v rfl]

theorem nothingSkipped_unit (hlow : ¬IsLow u) (hhigh : ¬IsHigh u) (hu : u ≠ 0) :
    NothingSkipped share behind (u :: src) ↔
      (behind = true → ¬HasLowBit u) ∧ NothingSkipped share false src := by
  rw [nothingSkipped_cons, if_neg hlow, if_neg hhigh, if_neg hu]
  simp [hlow]

theorem nothingSkipped_zero : NothingSkipped share behind (0 :: src) := by
  rw [nothingSkipped_cons, if_neg (by decide), if_neg (by decide), if_pos rfl]
  exact ⟨fun _ hbit => absurd hbit (by decide), trivial⟩

end Equations

/-! ## Units that are skipped -/

/-- The string does not go on with a unit that has the bit. -/
def RunEnds (src : List Wchar) : Prop := ∀ u ∈ src.head?, ¬HasLowBit u

theorem repaired_of_runEnds (h : RunEnds src) (behind : Bool) :
    repaired share behind src = repaired share false src := by
  cases src with
  | nil => rfl
  | cons u src =>
    have hlow : ¬IsLow u := fun hlow => h u rfl hlow.hasLowBit
    rw [repaired_cons, repaired_cons, if_neg hlow, if_neg hlow]

theorem nothingSkipped_of_runEnds (h : RunEnds src) (behind : Bool) :
    NothingSkipped share behind src ↔ NothingSkipped share false src := by
  cases src with
  | nil => rfl
  | cons u src =>
    have hlow : ¬IsLow u := fun hlow => h u rfl hlow.hasLowBit
    have hbit : ¬HasLowBit u := h u rfl
    rw [nothingSkipped_cons, nothingSkipped_cons]
    simp [hlow, hbit]

variable {run : List Wchar}

/-- The units of a run stand for nothing more than the surrogate before them. -/
def Shared (share : Bool) (run : List Wchar) : Prop :=
  run = [] ∨ share = true ∧ ∀ u ∈ run, IsLow u

theorem shared_cons : Shared share (u :: run) ↔ share = true ∧ IsLow u ∧ Shared share run := by
  simp only [Shared, List.cons_ne_nil, false_or, List.forall_mem_cons]
  constructor
  · rintro ⟨hshare, hu, hrun⟩
    exact ⟨hshare, hu, Or.inr ⟨hshare, hrun⟩⟩
  · rintro ⟨hshare, hu, rfl | ⟨-, hrun⟩⟩
    · exact ⟨hshare, hu, nofun⟩
    · exact ⟨hshare, hu, hrun⟩

/-- A unit with the bit is a low surrogate, or a character by itself. -/
theorem not_isHigh_of_hasLowBit (h : HasLowBit u) : ¬IsHigh u := fun hhigh => hhigh.not_hasLowBit h

theorem ne_zero_of_hasLowBit (h : HasLowBit u) : u ≠ 0 := by
  rintro rfl
  exact absurd h (by decide)

theorem nothingSkipped_run (hends : RunEnds src) : ∀ {run : List Wchar}, (∀ u ∈ run, HasLowBit u) →
    (NothingSkipped share true (run ++ src) ↔ Shared share run ∧ NothingSkipped share false src)
  | [], _ => by
    rw [List.nil_append, nothingSkipped_of_runEnds hends]
    exact (and_iff_right (Or.inl rfl)).symm
  | u :: run, hrun => by
    rw [List.forall_mem_cons] at hrun
    have ih := nothingSkipped_run hends hrun.2
    rw [List.cons_append, shared_cons]
    by_cases hlow : IsLow u
    · rw [nothingSkipped_low hlow, ih]
      simp [hlow, and_assoc]
    · rw [nothingSkipped_unit hlow (not_isHigh_of_hasLowBit hrun.1) (ne_zero_of_hasLowBit hrun.1)]
      exact iff_of_false (fun h => h.1 rfl hrun.1) fun h => hlow h.1.2.1

theorem repaired_run (hends : RunEnds src) : ∀ {run : List Wchar}, Shared share run →
    repaired share true (run ++ src) = repaired share false src
  | [], _ => repaired_of_runEnds hends true
  | u :: run, hshared => by
    obtain ⟨hshare, hlow, hrest⟩ := shared_cons.mp hshared
    rw [List.cons_append, repaired_low hlow, repaired_run hends hrest, hshare]
    rfl

/-- Skipping units never makes the string longer. -/
theorem length_repaired_run (hends : RunEnds src) : ∀ {run : List Wchar} (behind : Bool),
    (∀ u ∈ run, HasLowBit u) →
      (repaired share false src).length ≤ (repaired share behind (run ++ src)).length
  | [], behind, _ => by rw [List.nil_append, repaired_of_runEnds hends behind]
  | u :: run, behind, hrun => by
    rw [List.forall_mem_cons] at hrun
    rw [List.cons_append]
    by_cases hlow : IsLow u
    · have ih := length_repaired_run hends true hrun.2
      rw [repaired_low hlow, List.length_append]
      exact Nat.le_trans ih (Nat.le_add_left _ _)
    · have ih := length_repaired_run hends false hrun.2
      rw [repaired_unit hlow (not_isHigh_of_hasLowBit hrun.1) (ne_zero_of_hasLowBit hrun.1),
        List.length_cons]
      exact Nat.le_succ_of_le ih

/-- Where a character or a replacement is skipped, it is missing. -/
theorem length_repaired_run_lt (hends : RunEnds src) : ∀ {run : List Wchar},
    (∀ u ∈ run, HasLowBit u) → ¬Shared share run →
      (repaired share false src).length < (repaired share true (run ++ src)).length
  | [], _, hshared => absurd (Or.inl rfl) hshared
  | u :: run, hrun, hshared => by
    rw [List.forall_mem_cons] at hrun
    rw [List.cons_append]
    by_cases hlow : IsLow u
    · rw [repaired_low hlow, List.length_append]
      by_cases hshare : share = true
      · have hrest : ¬Shared share run := fun h => hshared (shared_cons.mpr ⟨hshare, hlow, h⟩)
        have ih := length_repaired_run_lt hends hrun.2 hrest
        exact Nat.lt_of_lt_of_le ih (Nat.le_add_left _ _)
      · have ih : (repaired share false src).length ≤ (repaired share true (run ++ src)).length :=
          length_repaired_run hends true hrun.2
        rw [if_neg (by simp [hshare]), List.length_singleton, Nat.add_comm]
        exact Nat.lt_succ_of_le ih
    · have ih : (repaired share false src).length ≤ (repaired share false (run ++ src)).length :=
        length_repaired_run hends false hrun.2
      rw [repaired_unit hlow (not_isHigh_of_hasLowBit hrun.1) (ne_zero_of_hasLowBit hrun.1),
        List.length_cons]
      exact Nat.lt_succ_of_le ih

/-! ## What is decoded -/

theorem toNat_unitChar (hlow : ¬IsLow u) (hhigh : ¬IsHigh u) : (unitChar u).toNat = u.toNat := by
  have hlt := u.isLt
  have hvalid : u.toNat.isValidChar := by
    unfold IsLow at hlow
    unfold IsHigh at hhigh
    unfold Nat.isValidChar
    omega
  rw [unitChar, Char.ofNat, dif_pos hvalid]
  rfl

theorem toNat_pairChar (hu : IsHigh u) (hv : IsLow v) : (pairChar u v).toNat = pairValue u v := by
  have hvalid : (pairValue u v).isValidChar := by
    unfold IsHigh at hu
    unfold IsLow at hv
    unfold pairValue Nat.isValidChar
    omega
  rw [pairChar, Char.ofNat, dif_pos hvalid]
  rfl

/-- The characters that are decoded: those of the repaired string if nothing is skipped, and
fewer otherwise. -/
structure Decoded (share : Bool) (src : List Wchar) (cs : List Char) : Prop where
  no_nul : '\x00' ∉ cs
  of_kept : NothingSkipped share false src → cs = repaired share false src
  of_skipped : ¬NothingSkipped share false src → cs.length < (repaired share false src).length

theorem Decoded.length_le {cs : List Char} (h : Decoded share src cs) :
    cs.length ≤ (repaired share false src).length := by
  by_cases hkept : NothingSkipped share false src
  · rw [h.of_kept hkept]
  · exact Nat.le_of_lt (h.of_skipped hkept)

/-- One more character, where the rest of the string is repaired by itself. -/
theorem Decoded.cons {c : Char} {cs : List Char} {whole : List Wchar} (h : Decoded share src cs)
    (hc : c ≠ '\x00') (hrepaired : repaired share false whole = c :: repaired share false src)
    (hskipped : NothingSkipped share false whole ↔ NothingSkipped share false src) :
    Decoded share whole (c :: cs) where
  no_nul hmem := by
    rcases List.mem_cons.mp hmem with heq | hrest
    · exact hc heq.symm
    · exact h.no_nul hrest
  of_kept hkept := by rw [hrepaired, h.of_kept (hskipped.mp hkept)]
  of_skipped hnot := by
    rw [hrepaired, List.length_cons, List.length_cons]
    exact Nat.succ_lt_succ (h.of_skipped fun hkept => hnot (hskipped.mpr hkept))

/-- A low surrogate, and the run of units that it takes with it. -/
theorem Decoded.low {cs : List Char} (h : Decoded share src cs) (hu : IsLow u)
    (hrun : ∀ u ∈ run, HasLowBit u) (hends : RunEnds src) :
    Decoded share (u :: (run ++ src)) (replacementChar :: cs) where
  no_nul hmem := by
    rcases List.mem_cons.mp hmem with heq | hrest
    · exact absurd heq (by decide)
    · exact h.no_nul hrest
  of_kept hkept := by
    rw [nothingSkipped_low hu, nothingSkipped_run hends hrun] at hkept
    rw [repaired_low hu, repaired_run hends hkept.2.1, h.of_kept hkept.2.2]
    simp
  of_skipped hnot := by
    rw [nothingSkipped_low hu, nothingSkipped_run hends hrun] at hnot
    have hfirst : (if share && false then [] else [replacementChar]) = [replacementChar] := by
      simp
    rw [repaired_low hu, hfirst, List.length_append, List.length_cons, List.length_singleton,
      Nat.add_comm 1]
    refine Nat.succ_lt_succ ?_
    by_cases hshared : Shared share run
    · have hlt := h.of_skipped fun hkept => hnot ⟨nofun, hshared, hkept⟩
      exact Nat.lt_of_lt_of_le hlt (length_repaired_run hends true hrun)
    · exact Nat.lt_of_le_of_lt h.length_le (length_repaired_run_lt hends hrun hshared)

theorem Decoded.nil : Decoded share [] [] where
  no_nul := nofun
  of_kept _ := rfl
  of_skipped hnot := absurd trivial hnot

theorem Decoded.zero : Decoded share (0 :: src) [] where
  no_nul := nofun
  of_kept _ := repaired_zero.symm
  of_skipped hnot := absurd nothingSkipped_zero hnot

theorem drop_takeWhile (p : Wchar → Bool) (src : List Wchar) :
    src.drop (src.takeWhile p).length = src.dropWhile p := by
  induction src with
  | nil => rfl
  | cons u src ih => by_cases h : p u <;> simp [h, ih]

theorem takeWhile_hasLowBit (src : List Wchar) :
    (∀ u ∈ src.takeWhile fun u => HasLowBit u, HasLowBit u) ∧
      RunEnds (src.dropWhile fun u => HasLowBit u) := by
  refine ⟨fun v hv => ?_, fun u hu hbit => ?_⟩
  · have htrue := List.mem_takeWhile_imp (p := fun u => decide (HasLowBit u)) hv
    exact of_decide_eq_true htrue
  · have hnot := List.head?_dropWhile_not (fun u => decide (HasLowBit u)) src
    rw [hu] at hnot
    exact absurd hbit (of_decide_eq_false hnot)

/-- What the decoder does with the unit at the front. -/
theorem Decoded.step {cs : List Char} (hu : u ≠ 0)
    (h : Decoded share ((u :: src).drop (utf16ToUCS4 (u :: src)).2) cs) :
    ∃ c : Char, (utf16ToUCS4 (u :: src)).1 = c.toNat ∧ Decoded share (u :: src) (c :: cs) := by
  by_cases hlow : IsLow u
  · obtain ⟨hrun, hends⟩ := takeWhile_hasLowBit src
    rw [utf16ToUCS4_low hlow] at h ⊢
    rw [List.drop_succ_cons, drop_takeWhile] at h
    refine ⟨replacementChar, rfl, ?_⟩
    have hdecoded := h.low hlow hrun hends
    rwa [List.takeWhile_append_dropWhile] at hdecoded
  by_cases hhigh : IsHigh u
  · rcases Classical.em (∃ v ∈ src.head?, IsLow v) with ⟨v, hv, hvlow⟩ | hpair
    · obtain ⟨src, rfl⟩ := List.head?_eq_some_iff.mp hv
      rw [utf16ToUCS4_pair hhigh hvlow] at h ⊢
      refine ⟨pairChar u v, (toNat_pairChar hhigh hvlow).symm, h.cons ?_
        (repaired_pair hhigh hvlow) (nothingSkipped_pair hhigh hvlow)⟩
      intro heq
      have hzero : (pairChar u v).toNat = 0 := congrArg Char.toNat heq
      rw [toNat_pairChar hhigh hvlow] at hzero
      unfold pairValue at hzero
      omega
    · have halone : ∀ v ∈ src.head?, ¬IsLow v := fun v hv hvlow => hpair ⟨v, hv, hvlow⟩
      rw [utf16ToUCS4_alone hhigh halone] at h ⊢
      exact ⟨replacementChar, rfl, h.cons (by decide) (repaired_alone hhigh halone)
        (nothingSkipped_alone hhigh halone)⟩
  · rw [utf16ToUCS4_unit hlow hhigh] at h ⊢
    refine ⟨unitChar u, (toNat_unitChar hlow hhigh).symm, h.cons ?_
      (repaired_unit hlow hhigh hu) ?_⟩
    · intro heq
      have hzero : (unitChar u).toNat = 0 := congrArg Char.toNat heq
      rw [toNat_unitChar hlow hhigh] at hzero
      exact hu (BitVec.eq_of_toNat_eq hzero)
    · rw [nothingSkipped_unit hlow hhigh hu]
      simp

theorem exists_decoded (share : Bool) {K : List ℕ} (h : Chars 0 utf16ToUCS4 src K) :
    ∃ cs : List Char, K = cs.map Char.toNat ∧ Decoded share src cs := by
  induction h with
  | nil => exact ⟨[], rfl, .nil⟩
  | nul src => exact ⟨[], rfl, .zero⟩
  | char hu _ _ ih =>
    obtain ⟨cs, rfl, hdecoded⟩ := ih
    obtain ⟨c, hc, hwhole⟩ := hdecoded.step hu
    exact ⟨c :: cs, by rw [List.map_cons, hc], hwhole⟩

/-! ## What is converted -/

theorem utf8Char_ne_nil (c : Char) : utf8Char c ≠ [] := by
  rw [utf8Char_eq]
  split_ifs <;> exact List.cons_ne_nil _ _

theorem utf8_injective : ∀ {cs ds : List Char}, utf8 cs = utf8 ds → cs = ds
  | [], [], _ => rfl
  | [], d :: ds, h => absurd (List.append_eq_nil_iff.mp h.symm).1 (utf8Char_ne_nil d)
  | c :: cs, [], h => absurd (List.append_eq_nil_iff.mp h).1 (utf8Char_ne_nil c)
  | c :: cs, d :: ds, h => by
    have happend : utf8Char c ++ utf8 cs = utf8Char d ++ utf8 ds := h
    have hread := utf8ToUCS4_char c (utf8 cs)
    rw [happend, utf8ToUCS4_char] at hread
    obtain rfl : d = c := toNat_injective (Prod.ext_iff.mp hread).1
    rw [utf8_injective (List.append_cancel_left happend)]

/-- No character is cut off. -/
theorem not_overruns_utf16 (src : List Wchar) : ¬Overruns 0 utf16ToUCS4 src := by
  rw [overruns_iff]
  rintro ⟨-, u, rest, -, -, -, hlt⟩
  exact absurd hlt (Nat.not_lt.mpr (utf16ToUCS4_range u rest).2)

/-- A string is repaired exactly if nothing is skipped. -/
theorem utf16ToUTF8_repaired_iff (share : Bool) (src : List Wchar) :
    utf16ToUTF8 src = .ok (utf8 (repaired share false src) ++ [0]) ↔
      NothingSkipped share false src := by
  obtain ⟨K, hK⟩ : ∃ K, Chars 0 utf16ToUCS4 src K :=
    (advances_utf16.chars_or_overruns 0 src).resolve_right (not_overruns_utf16 src)
  obtain ⟨cs, rfl, hdecoded⟩ := exists_decoded share hK
  have hconvert := (convert_chars ucs4ToUTF8 advances_utf16 hK).2.2
  rw [flatMap_ucs4ToUTF8] at hconvert
  rw [utf16ToUTF8, hconvert]
  constructor
  · intro heq
    have hcs : cs = repaired share false src :=
      utf8_injective (List.append_cancel_right (Except.ok.inj heq))
    by_contra hskipped
    exact absurd (congrArg List.length hcs) (Nat.ne_of_lt (hdecoded.of_skipped hskipped))
  · intro hkept
    rw [hdecoded.of_kept hkept]

/-- **Conversion between the forms.** Well-formed strings come back as they were. A string with
unpaired surrogates is repaired, and nothing else in it is changed, exactly if no unit with the
bit of the low surrogates stands behind an unpaired one. -/
theorem utf16_utf8_conversion (share : Bool) (src : List Wchar) :
    (∀ (cs : List Char) (tail : List Wchar), '\x00' ∉ cs → Terminated tail →
      (utf16ToUTF8 (utf16 cs ++ tail) >>= utf8ToUTF16) = .ok (utf16 cs ++ [0])) ∧
    (∀ (cs : List Char) (tail : List Byte), '\x00' ∉ cs → Terminated tail →
      (utf8ToUTF16 (utf8 cs ++ tail) >>= utf16ToUTF8) = .ok (utf8 cs ++ [0])) ∧
    (utf16ToUTF8 src = .ok (utf8 (repaired share false src) ++ [0]) ↔
      NothingSkipped share false src) := by
  refine ⟨fun cs tail hcs htail => ?_, fun cs tail hcs htail => ?_,
    utf16ToUTF8_repaired_iff share src⟩
  · rw [utf16ToUTF8_utf16 hcs htail]
    exact utf8ToUTF16_utf8 hcs (Or.inr ⟨[], rfl⟩)
  · rw [utf8ToUTF16_utf8 hcs htail]
    exact utf16ToUTF8_utf16 hcs (Or.inr ⟨[], rfl⟩)

/-- A letter and a pair, with a zero behind them. -/
theorem utf16_pair_converted :
    (utf16ToUTF8 ([0xe9, 0xd83d, 0xde00] ++ [0]) >>= utf8ToUTF16) =
        .ok ([0xe9, 0xd83d, 0xde00] ++ [0]) ∧
      (utf8ToUTF16 ([0xc3, 0xa9, 0xf0, 0x9f, 0x98, 0x80] ++ []) >>= utf16ToUTF8) =
        .ok ([0xc3, 0xa9, 0xf0, 0x9f, 0x98, 0x80] ++ [0]) :=
  ⟨(utf16_utf8_conversion true []).1 ['é', '😀'] [0] (by decide) (Or.inr ⟨[], rfl⟩),
    (utf16_utf8_conversion true []).2.1 ['é', '😀'] [] (by decide) (Or.inl rfl)⟩

/-- An unpaired low surrogate and a letter that has the bit. The letter is gone. -/
theorem utf16_letter_skipped :
    utf16ToUTF8 [0xdc00, 0x0410] = .ok (utf8 [replacementChar] ++ [0]) ∧
      utf8 [replacementChar] ≠ utf8 (repaired true false [0xdc00, 0x0410]) ∧
      utf8 [replacementChar] ≠ utf8 (repaired false false [0xdc00, 0x0410]) := by
  decide

end KasmVNC.Rfb
