import KasmVNC.Lib.Wire
import Mathlib.Data.List.TakeWhile

/-!
# Text in C

Strings end before the first zero, a separator is found by `strchr`, and `fgets` reads a
line, or the first `limit` bytes of it.
-/

namespace KasmVNC.Lib

/-- A string, without the zero at its end. -/
structure CString where
  bytes : List Byte
  no_nul : 0 ∉ bytes := by decide
deriving DecidableEq

namespace CString

/-- The string at the start of a buffer. -/
def ofBuffer (buf : List Byte) : CString where
  bytes := buf.takeWhile (· ≠ 0)
  no_nul h := by simpa using List.mem_takeWhile_imp h

def empty : CString := ⟨[], List.not_mem_nil⟩

theorem ext {s t : CString} (h : s.bytes = t.bytes) : s = t := by
  cases s
  cases t
  cases h
  rfl

/-- A string with a zero behind it. -/
theorem ofBuffer_append (s : CString) (rest : List Byte) :
    ofBuffer (s.bytes ++ 0 :: rest) = s := by
  apply ext
  show (s.bytes ++ 0 :: rest).takeWhile (· ≠ 0) = s.bytes
  rw [List.takeWhile_append_of_pos, List.takeWhile_cons_of_neg (by decide), List.append_nil]
  intro b hb
  exact decide_eq_true fun hzero => s.no_nul (hzero ▸ hb)

theorem bytes_ofBuffer_zero (buf : List Byte) : (ofBuffer (0 :: buf)).bytes = [] := by
  show (0 :: buf).takeWhile (· ≠ 0) = []
  rw [List.takeWhile_cons, if_neg (by decide)]

theorem bytes_ofBuffer_cons {b : Byte} (hb : b ≠ 0) (buf : List Byte) :
    (ofBuffer (b :: buf)).bytes = b :: (ofBuffer buf).bytes := by
  show (b :: buf).takeWhile (· ≠ 0) = b :: buf.takeWhile (· ≠ 0)
  rw [List.takeWhile_cons, if_pos (decide_eq_true hb)]

theorem bytes_ofBuffer_of_not_mem {buf : List Byte} (h : 0 ∉ buf) : (ofBuffer buf).bytes = buf :=
  List.takeWhile_eq_self_iff.mpr fun _ hb => decide_eq_true fun hzero => h (hzero ▸ hb)

end CString

section Cut

variable {α : Type*} [DecidableEq α] {c : α}

/-- What is before and behind the first `c`. -/
def cut (c : α) : List α → Option (List α × List α)
  | [] => none
  | b :: s => if b = c then some ([], s) else (cut c s).map fun p => (b :: p.1, p.2)

theorem cut_append : ∀ {s : List α} (rest : List α), c ∉ s → cut c (s ++ c :: rest) = some (s, rest)
  | [], _, _ => if_pos rfl
  | b :: s, rest, h => by
    rw [List.mem_cons, not_or] at h
    rw [List.cons_append, cut, if_neg (Ne.symm h.1), cut_append rest h.2]
    rfl

theorem of_cut_eq_some : ∀ {s before behind : List α}, cut c s = some (before, behind) →
    s = before ++ c :: behind ∧ c ∉ before
  | b :: s, before, behind, h => by
    rw [cut] at h
    split at h
    · next hb =>
        cases h
        exact ⟨by rw [hb, List.nil_append], List.not_mem_nil⟩
    · next hb =>
        obtain ⟨⟨before', behind'⟩, hs, hp⟩ := Option.map_eq_some_iff.mp h
        cases hp
        obtain ⟨rfl, hnot⟩ := of_cut_eq_some hs
        exact ⟨rfl, List.not_mem_cons_of_ne_of_not_mem (Ne.symm hb) hnot⟩

/-- The text from the first place on where `pat` is. -/
def strstr (pat : List α) : List α → Option (List α)
  | [] => if pat = [] then some [] else none
  | b :: s => if pat.isPrefixOf (b :: s) then some (b :: s) else strstr pat s

theorem strstr_eq_none_iff {pat : List α} : ∀ {s : List α}, strstr pat s = none ↔ ¬pat <:+: s
  | [] => by
    rw [strstr, List.infix_nil]
    split
    · next h => exact iff_of_false (by simp) (not_not.mpr h)
    · next h => exact iff_of_true rfl h
  | b :: s => by
    rw [strstr, List.infix_cons_iff, not_or, ← strstr_eq_none_iff]
    split
    · next h => exact iff_of_false (by simp) fun hnot => hnot.1 (List.isPrefixOf_iff_prefix.mp h)
    · next h => exact (and_iff_right fun hstart => h (List.isPrefixOf_iff_prefix.mpr hstart)).symm

end Cut

section Search

variable {α : Type*} {p : List α → Bool}

/-- The text from the first place on where a test holds. -/
def firstSuffix (p : List α → Bool) : List α → Option (List α)
  | [] => if p [] then some [] else none
  | b :: s => if p (b :: s) then some (b :: s) else firstSuffix p s

theorem firstSuffix_eq_some_iff {t : List α} : ∀ {s : List α}, firstSuffix p s = some t ↔
    (t <:+ s ∧ p t) ∧ ∀ u, u <:+ s → p u → u.length ≤ t.length
  | [] => by
    simp only [firstSuffix, Option.ite_none_right_eq_some, Option.some.injEq, List.suffix_nil]
    constructor
    · rintro ⟨hp, rfl⟩
      exact ⟨⟨rfl, hp⟩, fun u hu _ => (congrArg List.length hu).le⟩
    · rintro ⟨⟨rfl, hp⟩, -⟩
      exact ⟨hp, rfl⟩
  | b :: s => by
    rw [firstSuffix]
    split
    · next hp =>
        rw [Option.some.injEq]
        constructor
        · rintro rfl
          exact ⟨⟨List.suffix_rfl, hp⟩, fun u hu _ => hu.length_le⟩
        · rintro ⟨⟨ht, -⟩, hfirst⟩
          exact (ht.eq_of_length_le (hfirst _ List.suffix_rfl hp)).symm
    · next hp =>
        have hstart : ∀ {u}, u <:+ b :: s → p u → u <:+ s := fun {u} hu hpu =>
          (List.suffix_cons_iff.mp hu).resolve_left fun heq => hp (heq ▸ hpu)
        rw [firstSuffix_eq_some_iff]
        constructor
        · rintro ⟨⟨ht, hpt⟩, hfirst⟩
          exact ⟨⟨ht.trans (List.suffix_cons b s), hpt⟩, fun u hu hpu => hfirst u (hstart hu hpu) hpu⟩
        · rintro ⟨⟨ht, hpt⟩, hfirst⟩
          exact ⟨⟨hstart ht hpt, hpt⟩, fun u hu => hfirst u (hu.trans (List.suffix_cons b s))⟩

theorem strstr_eq_firstSuffix [DecidableEq α] (pat : List α) :
    ∀ s : List α, strstr pat s = firstSuffix pat.isPrefixOf s
  | [] => by
    rw [strstr, firstSuffix]
    exact if_congr (by cases pat <;> simp) rfl rfl
  | b :: s => by rw [strstr, firstSuffix, strstr_eq_firstSuffix pat s]

/-- What is before the first `pat`. -/
def upTo [DecidableEq α] (pat s : List α) : Option (List α) :=
  (strstr pat s).map fun rest => s.take (s.length - rest.length)

/-- It is the shortest beginning of the text that `pat` is behind. -/
theorem upTo_eq_some_iff [DecidableEq α] {pat s v : List α} : upTo pat s = some v ↔
    v ++ pat <+: s ∧ ∀ w, w ++ pat <+: s → v.length ≤ w.length := by
  rw [upTo, strstr_eq_firstSuffix, Option.map_eq_some_iff]
  simp only [firstSuffix_eq_some_iff, List.isPrefixOf_iff_prefix]
  constructor
  · rintro ⟨rest, ⟨⟨⟨front, rfl⟩, hpat⟩, hfirst⟩, rfl⟩
    rw [List.length_append, Nat.add_sub_cancel_right, List.take_left]
    refine ⟨(List.prefix_append_right_inj front).mpr hpat, ?_⟩
    rintro w ⟨more, hw⟩
    have hle := hfirst (pat ++ more) ⟨w, by rw [← hw, List.append_assoc]⟩ (List.prefix_append pat more)
    have hlength := congrArg List.length hw
    simp only [List.length_append] at hle hlength
    omega
  · rintro ⟨⟨more, rfl⟩, hshort⟩
    refine ⟨pat ++ more, ⟨⟨⟨v, (List.append_assoc v pat more).symm⟩, List.prefix_append pat more⟩, ?_⟩, ?_⟩
    · rintro u ⟨w, hw⟩ ⟨more', rfl⟩
      have hle := hshort w ⟨more', by rw [← hw, List.append_assoc]⟩
      have hlength := congrArg List.length hw
      simp only [List.length_append] at hlength ⊢
      omega
    · rw [List.append_assoc, List.length_append, Nat.add_sub_cancel_right, List.take_left]

/-- There is something before `pat` that is not too long. -/
theorem exists_upTo_iff [DecidableEq α] {pat s : List α} {limit : ℕ} :
    (∃ v, upTo pat s = some v ∧ v.length < limit) ↔ ∃ v, v ++ pat <+: s ∧ v.length < limit := by
  constructor
  · rintro ⟨v, hv, hlimit⟩
    exact ⟨v, (upTo_eq_some_iff.mp hv).1, hlimit⟩
  · rintro ⟨w, hw, hlimit⟩
    cases hv : upTo pat s with
    | none =>
      rw [upTo, Option.map_eq_none_iff, strstr_eq_none_iff] at hv
      exact absurd ((List.suffix_append w pat).isInfix.trans hw.isInfix) hv
    | some v => exact ⟨v, rfl, ((upTo_eq_some_iff.mp hv).2 w hw).trans_lt hlimit⟩

end Search

section Segments

variable {α : Type*} [DecidableEq α] {c : α} {s before behind : List α}

theorem cut_eq_none_iff : ∀ {s : List α}, cut c s = none ↔ c ∉ s
  | [] => iff_of_true rfl List.not_mem_nil
  | b :: s => by
    rw [cut, List.mem_cons, not_or, ← cut_eq_none_iff]
    split
    · next hb => exact iff_of_false nofun fun h => h.1 hb.symm
    · next hb => rw [Option.map_eq_none_iff, and_iff_right (Ne.symm hb)]

theorem length_lt_of_cut (h : cut c s = some (before, behind)) : behind.length < s.length := by
  rw [(of_cut_eq_some h).1, List.length_append, List.length_cons]
  omega

/-- What stands between the separators, with the places where it starts. -/
def segments (c : α) (start : ℕ) (s : List α) : List (ℕ × List α) :=
  match h : cut c s with
  | none => [(start, s)]
  | some (before, behind) => (start, before) :: segments c (start + before.length + 1) behind
termination_by s.length
decreasing_by exact length_lt_of_cut h

theorem segments_last (h : c ∉ s) (start : ℕ) : segments c start s = [(start, s)] := by
  rw [segments]
  split
  · rfl
  · next hcut => exact absurd ((cut_eq_none_iff.mpr h).symm.trans hcut) nofun

theorem segments_append (h : c ∉ before) (start : ℕ) :
    segments c start (before ++ c :: behind) =
      (start, before) :: segments c (start + before.length + 1) behind := by
  have hbefore := cut_append behind h
  rw [segments]
  split
  · next hcut => exact absurd (hbefore.symm.trans hcut) nofun
  · next hcut =>
      cases hbefore.symm.trans hcut
      rfl

/-- A string is a single segment, or has a first one. -/
theorem segments_cases (c : α) (s : List α) :
    c ∉ s ∨ ∃ before behind, c ∉ before ∧ s = before ++ c :: behind := by
  cases hcut : cut c s with
  | none => exact Or.inl (cut_eq_none_iff.mp hcut)
  | some p =>
    obtain ⟨hs, hbefore⟩ := of_cut_eq_some hcut
    exact Or.inr ⟨p.1, p.2, hbefore, hs⟩

/-- From the last segment to the first one. -/
@[elab_as_elim]
theorem segments_induction (c : α) {motive : List α → Prop} (last : ∀ s, c ∉ s → motive s)
    (append : ∀ before behind, c ∉ before → motive behind → motive (before ++ c :: behind))
    (s : List α) : motive s := by
  induction hlength : s.length using Nat.strongRecOn generalizing s with
  | ind n ih =>
    rcases segments_cases c s with hlast | ⟨before, behind, hbefore, rfl⟩
    · exact last s hlast
    · refine append before behind hbefore (ih behind.length ?_ behind rfl)
      rw [← hlength, List.length_append, List.length_cons]
      omega

/-- Where a segment is, and what it has. -/
theorem of_mem_segments {seg : ℕ × List α} {start : ℕ} (h : seg ∈ segments c start s) :
    start ≤ seg.1 ∧ c ∉ seg.2 ∧ ∀ b ∈ seg.2, b ∈ s := by
  induction s using segments_induction c generalizing start with
  | last s hlast =>
    rw [segments_last hlast, List.mem_singleton] at h
    subst h
    exact ⟨Nat.le_refl start, hlast, fun b hb => hb⟩
  | append before behind hbefore ih =>
    rw [segments_append hbefore] at h
    rcases List.mem_cons.mp h with rfl | hrest
    · exact ⟨Nat.le_refl start, hbefore, fun b hb => List.mem_append_left _ hb⟩
    · obtain ⟨hstart, hnot, hmem⟩ := ih hrest
      refine ⟨by omega, hnot, fun b hb => ?_⟩
      exact List.mem_append_right _ (List.mem_cons_of_mem c (hmem b hb))

theorem takeWhile_ne_of_notMem (h : c ∉ s) : s.takeWhile (· ≠ c) = s :=
  List.takeWhile_eq_self_iff.mpr fun _ hb => decide_eq_true fun heq => h (heq ▸ hb)

theorem takeWhile_ne_append (h : c ∉ before) :
    (before ++ behind).takeWhile (· ≠ c) = before ++ behind.takeWhile (· ≠ c) :=
  List.takeWhile_append_of_pos fun _ hb => decide_eq_true fun heq => h (heq ▸ hb)

theorem takeWhile_ne_cons (behind : List α) : (c :: behind).takeWhile (· ≠ c) = [] :=
  List.takeWhile_cons_of_neg (by simp)

theorem takeWhile_ne_concat (s : List α) : (s ++ [c]).takeWhile (· ≠ c) = s.takeWhile (· ≠ c) := by
  rcases segments_cases c s with hlast | ⟨before, behind, hbefore, rfl⟩
  · rw [takeWhile_ne_append hlast, takeWhile_ne_cons, takeWhile_ne_of_notMem hlast, List.append_nil]
  · rw [List.append_assoc, List.cons_append, takeWhile_ne_append hbefore, takeWhile_ne_cons,
      takeWhile_ne_append hbefore, takeWhile_ne_cons]

/-- The first segment, and the place behind it. -/
theorem segments_eq_cons (c : α) (start : ℕ) (s : List α) :
    ∃ more, segments c start s = (start, s.takeWhile (· ≠ c)) :: more ∧
      ∀ seg ∈ more, start + (s.takeWhile (· ≠ c)).length < seg.1 := by
  rcases segments_cases c s with hlast | ⟨before, behind, hbefore, rfl⟩
  · exact ⟨[], by rw [segments_last hlast, takeWhile_ne_of_notMem hlast], nofun⟩
  · rw [takeWhile_ne_append hbefore, takeWhile_ne_cons, List.append_nil, segments_append hbefore]
    exact ⟨_, rfl, fun seg hseg => (of_mem_segments hseg).1⟩

/-- A loop over the segments, up to the first one from which on the string passes a test: where
it starts, and the string from there on. -/
def findSegment (c : α) (p : List α → Bool) (start : ℕ) (s : List α) : Option (ℕ × List α) :=
  if p s then some (start, s)
  else
    match h : cut c s with
    | none => none
    | some (before, behind) => findSegment c p (start + before.length + 1) behind
termination_by s.length
decreasing_by exact length_lt_of_cut h

section Find

variable {p : List α → Bool} {start : ℕ}

theorem findSegment_here (h : p s) : findSegment c p start s = some (start, s) := by
  rw [findSegment, if_pos h]

theorem findSegment_last (h : ¬p s) (hlast : c ∉ s) : findSegment c p start s = none := by
  rw [findSegment, if_neg h]
  split
  · rfl
  · next hcut => exact absurd ((cut_eq_none_iff.mpr hlast).symm.trans hcut) nofun

theorem findSegment_append (h : ¬p (before ++ c :: behind)) (hbefore : c ∉ before) :
    findSegment c p start (before ++ c :: behind) =
      findSegment c p (start + before.length + 1) behind := by
  have hfirst := cut_append behind hbefore
  rw [findSegment, if_neg h]
  split
  · next hcut => exact absurd (hfirst.symm.trans hcut) nofun
  · next hcut =>
      cases hfirst.symm.trans hcut
      rfl

end Find

end Segments

section CutLast

variable {α : Type*} [DecidableEq α] {c : α}

/-- What is before and behind the last `c`, where `strrchr` finds it. -/
def cutLast (c : α) (s : List α) : Option (List α × List α) :=
  (cut c s.reverse).map fun p => (p.2.reverse, p.1.reverse)

theorem cutLast_append {behind : List α} (before : List α) (h : c ∉ behind) :
    cutLast c (before ++ c :: behind) = some (before, behind) := by
  have hreverse : (before ++ c :: behind).reverse = behind.reverse ++ c :: before.reverse := by
    simp
  rw [cutLast, hreverse, cut_append _ (by simpa using h)]
  simp

theorem of_cutLast_eq_some {s before behind : List α} (h : cutLast c s = some (before, behind)) :
    s = before ++ c :: behind ∧ c ∉ behind := by
  obtain ⟨⟨u, v⟩, hcut, huv⟩ := Option.map_eq_some_iff.mp h
  cases huv
  obtain ⟨hs, hnot⟩ := of_cut_eq_some hcut
  refine ⟨?_, by simpa using hnot⟩
  rw [← List.reverse_reverse s, hs]
  simp

end CutLast

section Prefixes

variable {α : Type*} {c : α} {s t : List α}

/-- What two texts begin with, all texts between them begin with. -/
theorem prefix_of_between [LT α] [Std.Asymm fun a b : α => a < b] {u : List α} (hst : s < t)
    (htu : t < u) {w : List α} (hs : w <+: s) (hu : w <+: u) : w <+: t := by
  induction w generalizing s t u with
  | nil => exact List.nil_prefix
  | cons a w ih =>
    obtain ⟨s, rfl⟩ := hs
    obtain ⟨u, rfl⟩ := hu
    cases t with
    | nil => exact absurd hst (List.not_lt_nil _)
    | cons b t =>
      rw [List.cons_append, List.cons_lt_cons_iff] at hst htu
      rcases hst with hab | ⟨rfl, hst⟩
      · rcases htu with hba | ⟨rfl, -⟩
        · exact absurd hba (Std.Asymm.asymm _ _ hab)
        · exact absurd hab (Std.Irrefl.irrefl _)
      · rcases htu with haa | ⟨-, htu⟩
        · exact absurd haa (Std.Irrefl.irrefl _)
        · exact List.cons_prefix_cons.mpr
            ⟨rfl, ih hst htu (List.prefix_append w s) (List.prefix_append w u)⟩

end Prefixes

/-- The bytes of a text. -/
def ascii (s : String) : List Byte := s.toList.map fun c => BitVec.ofNat 8 c.toNat

/-- A string literal by its characters, which are not decoded. -/
theorem ascii_ofList (l : List Char) :
    ascii (String.ofList l) = l.map fun c => BitVec.ofNat 8 c.toNat := by
  rw [ascii, String.toList_ofList]

/-- `tolower` -/
def toLower (b : Byte) : Byte := if 0x41 ≤ b ∧ b ≤ 0x5A then b + 0x20 else b

/-- `strcasestr`: the text from the first place on where `pat` is, in small or capital letters. -/
def strcasestr (pat : List Byte) : List Byte → Option (List Byte) :=
  firstSuffix fun t => (pat.map toLower).isPrefixOf (t.map toLower)

/-! ## Numbers -/

/-- `%u` and `%lu` -/
def decimal (n : ℕ) : List Byte := (Nat.toDigits 10 n).map fun c => BitVec.ofNat 8 c.toNat

/-- A digit, as a byte. -/
def digit (d : ℕ) : Byte := BitVec.ofNat 8 (Nat.digitChar d).toNat

theorem decimal_of_lt {n : ℕ} (h : n < 10) : decimal n = [digit n] := by
  rw [decimal, Nat.toDigits_of_lt_base h]
  rfl

theorem decimal_of_le {n : ℕ} (h : 10 ≤ n) : decimal n = decimal (n / 10) ++ [digit (n % 10)] := by
  rw [decimal, Nat.toDigits_of_base_le (by decide) h, List.map_append]
  rfl

theorem mem_decimal {b : Byte} {n : ℕ} (h : b ∈ decimal n) : ∃ d < 10, b = digit d := by
  induction n using Nat.strong_induction_on with
  | _ n ih =>
    rcases lt_or_ge n 10 with hlt | hge
    · rw [decimal_of_lt hlt] at h
      exact ⟨n, hlt, List.mem_singleton.mp h⟩
    · rw [decimal_of_le hge] at h
      rcases List.mem_append.mp h with hfront | hlast
      · exact ih (n / 10) (Nat.div_lt_self (by omega) (by decide)) hfront
      · exact ⟨n % 10, Nat.mod_lt n (by decide), List.mem_singleton.mp hlast⟩

/-- A byte that is no digit is not in a number. -/
theorem notMem_decimal {b : Byte} (h : ∀ d < 10, b ≠ digit d) (n : ℕ) : b ∉ decimal n := by
  intro hmem
  obtain ⟨d, hd, rfl⟩ := mem_decimal hmem
  exact h d hd rfl

theorem decimal_ne_nil (n : ℕ) : decimal n ≠ [] := by
  rw [decimal, Ne, List.map_eq_nil_iff]
  exact Nat.toDigits_ne_nil

/-- A digit of `%X`, as a byte. -/
def hexDigitOf (d : ℕ) : Byte := BitVec.ofNat 8 (Nat.digitChar d).toUpper.toNat

/-- `%X`, with zeros in front of it up to the width. -/
def hexadecimal (width n : ℕ) : List Byte :=
  let digits := (Nat.toDigits 16 n).map fun c => BitVec.ofNat 8 c.toUpper.toNat
  List.replicate (width - digits.length) 0x30 ++ digits

theorem hexDigitOf_injective : ∀ d < 16, ∀ e < 16, hexDigitOf d = hexDigitOf e → d = e := by decide

theorem hexadecimal_one {n : ℕ} (h : n < 16) : hexadecimal 1 n = [hexDigitOf n] := by
  rw [hexadecimal, Nat.toDigits_of_lt_base h]
  rfl

theorem hexadecimal_of_le {n : ℕ} (h : 16 ≤ n) (width : ℕ) :
    hexadecimal width n = hexadecimal (width - 1) (n / 16) ++ [hexDigitOf (n % 16)] := by
  rw [hexadecimal, hexadecimal, Nat.toDigits_of_base_le (by decide) h]
  simp only [List.map_append, List.length_append, List.length_map, List.map_cons, List.map_nil,
    List.length_singleton, ← List.append_assoc, ← Nat.sub_sub, Nat.sub_right_comm]
  rfl

theorem le_length_hexadecimal (width n : ℕ) : width ≤ (hexadecimal width n).length := by
  rw [hexadecimal, List.length_append, List.length_replicate]
  omega

/-- The last digit, and the others. -/
theorem hexadecimal_succ {width : ℕ} (hwidth : 0 < width) (n : ℕ) :
    hexadecimal (width + 1) n = hexadecimal width (n / 16) ++ [hexDigitOf (n % 16)] := by
  rcases lt_or_ge n 16 with hlt | hge
  · obtain ⟨w, rfl⟩ := Nat.exists_eq_add_one_of_ne_zero (Nat.ne_zero_of_lt hwidth)
    rw [hexadecimal, hexadecimal, Nat.toDigits_of_lt_base hlt, Nat.div_eq_of_lt hlt,
      Nat.mod_eq_of_lt hlt, Nat.toDigits_of_lt_base (by decide)]
    simp [List.replicate_succ', hexDigitOf]
    rfl
  · exact hexadecimal_of_le hge (width + 1)

theorem hexadecimal_two {n : ℕ} (h : n < 256) :
    hexadecimal 2 n = [hexDigitOf (n / 16), hexDigitOf (n % 16)] := by
  rw [hexadecimal_succ Nat.one_pos, hexadecimal_one (Nat.div_lt_of_lt_mul h)]
  rfl

theorem hexadecimal_injective {width m n : ℕ} (hwidth : 0 < width) (hm : m < 16 ^ width)
    (hn : n < 16 ^ width) (h : hexadecimal width m = hexadecimal width n) : m = n := by
  induction width, hwidth using Nat.le_induction generalizing m n with
  | base =>
    rw [hexadecimal_one hm, hexadecimal_one hn, List.cons.injEq] at h
    exact hexDigitOf_injective m hm n hn h.1
  | succ w hw ih =>
    rw [hexadecimal_succ hw, hexadecimal_succ hw] at h
    obtain ⟨hfront, hlast⟩ := List.append_inj' h rfl
    have hquot := ih (Nat.div_lt_of_lt_mul (by omega)) (Nat.div_lt_of_lt_mul (by omega)) hfront
    have hrem := hexDigitOf_injective _ (Nat.mod_lt m (by decide)) _ (Nat.mod_lt n (by decide))
      (List.cons.inj hlast).1
    rw [← Nat.div_add_mod m 16, hquot, hrem, Nat.div_add_mod]

section Lines

variable {α : Type*} [DecidableEq α] {nl : α} {limit : ℕ}

/-- What `fgets` returns, call after call. `cur` is what it has read of a line. -/
def fgetsLines (nl : α) (limit : ℕ) : List α → List α → List (List α)
  | cur, [] => if cur = [] then [] else [cur]
  | cur, b :: rest =>
    if b = nl ∨ cur.length + 1 = limit then (cur ++ [b]) :: fgetsLines nl limit [] rest
    else fgetsLines nl limit (cur ++ [b]) rest

/-- A line that is short enough is read as a whole. -/
theorem fgetsLines_line (rest : List α) : ∀ {line cur : List α}, nl ∉ line →
    cur.length + line.length < limit →
    fgetsLines nl limit cur (line ++ nl :: rest) =
      (cur ++ (line ++ [nl])) :: fgetsLines nl limit [] rest
  | [], cur, _, _ => if_pos (Or.inl rfl)
  | b :: line, cur, hnl, hlimit => by
    rw [List.mem_cons, not_or] at hnl
    rw [List.length_cons] at hlimit
    rw [List.cons_append, fgetsLines, if_neg, fgetsLines_line rest hnl.2, List.append_assoc]
    · rfl
    · rw [List.length_append, List.length_singleton]
      omega
    · rintro (hb | hlength)
      · exact hnl.1 hb.symm
      · omega

/-- The end of a line is the end of what is read. -/
theorem eq_nil_of_mem_fgetsLines {before behind : List α} : ∀ {rest cur : List α}, nl ∉ cur →
    before ++ nl :: behind ∈ fgetsLines nl limit cur rest → behind = []
  | [], cur, hcur, h => by
    rw [fgetsLines] at h
    split at h
    · cases h
    · rw [List.mem_singleton] at h
      refine absurd ?_ hcur
      rw [← h]
      exact List.mem_append_right _ List.mem_cons_self
  | b :: rest, cur, hcur, h => by
    rw [fgetsLines] at h
    split at h
    · rcases List.mem_cons.mp h with h | h
      · -- otherwise the end of the line is in `cur`
        rcases List.eq_nil_or_concat' behind with hnil | ⟨init, last, rfl⟩
        · exact hnil
        · refine absurd ?_ hcur
          rw [← List.cons_append, ← List.append_assoc] at h
          rw [← (List.append_inj' h rfl).1]
          exact List.mem_append_right _ List.mem_cons_self
      · exact eq_nil_of_mem_fgetsLines List.not_mem_nil h
    · next hb =>
        refine eq_nil_of_mem_fgetsLines ?_ h
        rw [List.mem_append, List.mem_singleton, not_or]
        exact ⟨hcur, fun hnl => hb (Or.inl hnl.symm)⟩

end Lines

end KasmVNC.Lib
