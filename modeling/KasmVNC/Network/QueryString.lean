import KasmVNC.Network.HttpPaths

/-!
# Arguments of a request

`parse_get` compares a name with the start of every argument. It says where the value starts
and how long it is, which is the difference of two pointers, as an `unsigned`. The end of the
argument limits neither the comparison nor the search for the equals sign.
-/

namespace KasmVNC.Network.Query

open KasmVNC.Lib

abbrev ampersand : Byte := 0x26

abbrev equals : Byte := 0x3D

/-! ## The search -/

/-- What is returned. `arg` is a place in the string, or `""`. -/
structure Found where
  arg : Option ℕ
  /-- `end - arg` -/
  difference : ℤ
deriving DecidableEq

def Found.len (r : Found) : BitVec 32 := BitVec.ofInt 32 r.difference

def notFound : Found := ⟨none, 0⟩

/-- What is compared of the name. `optlen` is an `unsigned`. -/
def compared (opt : List Byte) : List Byte := opt.take (opt.length % 2 ^ 32)

/-- The name has been found at `start`. -/
def foundAt (start : ℕ) (s : List Byte) : Found :=
  match cut equals s with
  | none => notFound
  | some (name, _) =>
    { arg := some (start + name.length + 1)
      difference :=
        (start + (s.takeWhile (· ≠ ampersand)).length : ℤ) - (start + name.length + 1) }

/-- The loop, with the string from `start` on. -/
def parseGetFrom (name : List Byte) (start : ℕ) (s : List Byte) : Found :=
  match findSegment ampersand name.isPrefixOf start s with
  | none => notFound
  | some (start, s) => foundAt start s

def parse_get (s opt : CString) : Found := parseGetFrom (compared opt.bytes) 0 s.bytes

/-! ## What is asked for -/

def key (arg : List Byte) : List Byte := arg.takeWhile (· ≠ equals)

def value (arg : List Byte) : List Byte := (arg.dropWhile (· ≠ equals)).drop 1

/-- The first argument of this name, and where it starts. -/
def argument (opt : List Byte) (start : ℕ) (s : List Byte) : Option (ℕ × List Byte) :=
  (segments ampersand start s).find? fun seg => key seg.2 = opt

/-- The value of the first argument of this name is found, and a value of no length if there is
none. It is inside of an argument. -/
structure Answers (opt : List Byte) (start : ℕ) (s : List Byte) (r : Found) : Prop where
  not_negative : 0 ≤ r.difference
  inside : ∀ i, r.arg = some i → ∃ seg ∈ segments ampersand start s,
    seg.1 ≤ i ∧ i + r.len.toNat ≤ seg.1 + seg.2.length
  found : ∀ seg, argument opt start s = some seg → equals ∈ seg.2 →
    r.arg = some (seg.1 + (key seg.2).length + 1) ∧ r.len.toNat = (value seg.2).length
  missing : (∀ seg, argument opt start s = some seg → equals ∉ seg.2) → r.len = 0

/-- The argument that begins with the name has an equals sign. It is the one of this name, with
a value that is not too long, or it has no value, and no other one of this name has any. -/
def Readable (opt s : List Byte) : Prop :=
  ∀ start rest, findSegment ampersand (compared opt).isPrefixOf 0 s = some (start, rest) →
    equals ∈ rest →
    equals ∈ rest.takeWhile (· ≠ ampersand) ∧
      if key (rest.takeWhile (· ≠ ampersand)) = opt then
        (value (rest.takeWhile (· ≠ ampersand))).length < 2 ^ 32
      else
        (value (rest.takeWhile (· ≠ ampersand))).length % 2 ^ 32 = 0 ∧
          ∀ seg, argument opt 0 s = some seg → equals ∉ seg.2

/-! ## What is compared -/

variable {opt s : List Byte}

/-- An argument of this name begins with what is compared. -/
theorem compared_isPrefix {arg : List Byte} (h : key arg = opt) : compared opt <+: arg :=
  (List.take_prefix _ opt).trans (h ▸ List.takeWhile_prefix _)

/-- The arguments before the first one that begins with the name are not of this name. -/
theorem search_cases (opt : List Byte) (start : ℕ) (s : List Byte) :
    findSegment ampersand (compared opt).isPrefixOf start s = none ∧ argument opt start s = none ∨
      ∃ from_ rest, findSegment ampersand (compared opt).isPrefixOf start s = some (from_, rest) ∧
        argument opt start s = argument opt from_ rest ∧
          ∀ seg ∈ segments ampersand from_ rest, seg ∈ segments ampersand start s := by
  induction s using segments_induction ampersand generalizing start with
  | last s hlast =>
    by_cases hpre : (compared opt).isPrefixOf s
    · exact Or.inr ⟨start, s, findSegment_here hpre, rfl, fun seg hseg => hseg⟩
    · refine Or.inl ⟨findSegment_last hpre hlast, ?_⟩
      rw [argument, segments_last hlast, List.find?_eq_none]
      intro seg hseg hkey
      rw [List.mem_singleton] at hseg
      subst hseg
      exact hpre (List.isPrefixOf_iff_prefix.mpr (compared_isPrefix (of_decide_eq_true hkey)))
  | append before behind hbefore ih =>
    by_cases hpre : (compared opt).isPrefixOf (before ++ ampersand :: behind)
    · exact Or.inr ⟨start, _, findSegment_here hpre, rfl, fun seg hseg => hseg⟩
    · have hkey : key before ≠ opt := fun hkey => hpre (List.isPrefixOf_iff_prefix.mpr
        ((compared_isPrefix hkey).trans (List.prefix_append _ _)))
      have hskip : argument opt start (before ++ ampersand :: behind) =
          argument opt (start + before.length + 1) behind := by
        rw [argument, segments_append hbefore, List.find?_cons_of_neg (by simpa using hkey)]
        rfl
      rw [findSegment_append hpre hbefore, hskip, segments_append hbefore]
      rcases ih (start + before.length + 1) with hnone | ⟨from_, rest, hfind, harg, hmem⟩
      · exact Or.inl hnone
      · exact Or.inr ⟨from_, rest, hfind, harg, fun seg hseg =>
          List.mem_cons_of_mem _ (hmem seg hseg)⟩

/-! ## What is found -/

section Found

variable {name more : List Byte} {start : ℕ}

theorem foundAt_value (hequals : equals ∉ name) (hname : ampersand ∉ name) :
    foundAt start (name ++ equals :: more) =
      ⟨some (start + name.length + 1), (more.takeWhile (· ≠ ampersand)).length⟩ := by
  rw [foundAt, cut_append more hequals, takeWhile_ne_append hname,
    List.takeWhile_cons_of_pos (by decide), List.length_append, List.length_cons]
  dsimp only
  congr 1
  omega

theorem foundAt_negative (hequals : equals ∉ name) (hname : ampersand ∈ name) :
    (foundAt start (name ++ equals :: more)).difference < 0 := by
  have hlength : ((name ++ equals :: more).takeWhile (· ≠ ampersand)).length ≤ name.length := by
    rcases segments_cases ampersand name with hlast | ⟨before, behind, hbefore, rfl⟩
    · exact absurd hname hlast
    · rw [List.append_assoc, takeWhile_ne_append hbefore, List.cons_append, takeWhile_ne_cons,
        List.append_nil, List.length_append]
      exact Nat.le_add_right _ _
  rw [foundAt, cut_append more hequals]
  dsimp only
  omega

theorem len_eq (arg : Option ℕ) (n : ℕ) : (Found.len ⟨arg, n⟩).toNat = n % 2 ^ 32 := by
  rw [Found.len, BitVec.toNat_ofInt]
  exact congrArg Int.toNat (Int.natCast_emod n (2 ^ 32)).symm

theorem key_append (h : equals ∉ name) : key (name ++ equals :: more) = name := by
  rw [key, takeWhile_ne_append h, takeWhile_ne_cons, List.append_nil]

theorem value_append (h : equals ∉ name) : value (name ++ equals :: more) = more := by
  have hdrop := List.takeWhile_append_dropWhile (p := (· ≠ equals)) (l := name ++ equals :: more)
  have hkey : key (name ++ equals :: more) = name := key_append h
  rw [key] at hkey
  rw [hkey] at hdrop
  rw [value, List.append_cancel_left hdrop]
  rfl

end Found

/-- Nothing is found, and there is nothing. -/
theorem answers_notFound {start : ℕ}
    (h : ∀ seg, argument opt start s = some seg → equals ∉ seg.2) :
    Answers opt start s notFound where
  not_negative := Int.le_refl 0
  inside _ hi := absurd hi nofun
  found seg hseg hmem := absurd hmem (h seg hseg)
  missing _ := rfl

/-- The first argument that begins with the name has a value. -/
theorem answers_value_iff {name val rest : List Byte} {start from_ : ℕ} (hequals : equals ∉ name)
    (hargument : argument opt start s = argument opt from_ rest)
    (hmem : ∀ seg ∈ segments ampersand from_ rest, seg ∈ segments ampersand start s)
    (harg : rest.takeWhile (· ≠ ampersand) = name ++ equals :: val) :
    Answers opt start s ⟨some (from_ + name.length + 1), val.length⟩ ↔
      if name = opt then val.length < 2 ^ 32
      else val.length % 2 ^ 32 = 0 ∧ ∀ seg, argument opt start s = some seg → equals ∉ seg.2 := by
  obtain ⟨more, hsegments, hbehind⟩ := segments_eq_cons ampersand from_ rest
  rw [harg] at hsegments hbehind
  have hfind : argument opt start s =
      if name = opt then some (from_, name ++ equals :: val)
      else more.find? fun seg => key seg.2 = opt := by
    rw [hargument, argument, hsegments, List.find?_cons, key_append hequals]
    by_cases hopt : name = opt <;> simp [hopt]
  have hvalue : equals ∈ name ++ equals :: val := List.mem_append_right _ List.mem_cons_self
  constructor
  · rintro ⟨-, -, hfound, hmissing⟩
    split_ifs with hopt
    · rw [if_pos hopt] at hfind
      have hlen := (hfound _ hfind hvalue).2
      rw [len_eq, value_append hequals] at hlen
      exact Nat.mod_eq_iff_lt (by decide) |>.mp hlen
    · rw [if_neg hopt] at hfind
      have hnone : ∀ seg, argument opt start s = some seg → equals ∉ seg.2 := by
        intro seg hseg hin
        have hplace := Option.some.inj (hfound seg hseg hin).1
        have hlt := hbehind seg (List.mem_of_find?_eq_some (hfind.symm.trans hseg))
        rw [List.length_append, List.length_cons] at hlt
        omega
      refine ⟨?_, hnone⟩
      rw [← len_eq, hmissing hnone]
      rfl
  · intro h
    constructor
    · exact Int.natCast_nonneg val.length
    · rintro i hi
      cases hi
      refine ⟨_, hmem _ (hsegments ▸ List.mem_cons_self), ?_, ?_⟩
      · dsimp only
        omega
      · have hle := Nat.mod_le val.length (2 ^ 32)
        rw [len_eq, List.length_append, List.length_cons]
        dsimp only
        omega
    · intro seg hseg hin
      by_cases hopt : name = opt
      · rw [if_pos hopt] at h hfind
        cases hfind.symm.trans hseg
        exact ⟨by rw [key_append hequals],
          by rw [len_eq, value_append hequals, Nat.mod_eq_of_lt h]⟩
      · rw [if_neg hopt] at h
        exact absurd hin (h.2 seg hseg)
    · intro hnone
      by_cases hopt : name = opt
      · rw [if_pos hopt] at hfind
        exact absurd hvalue (hnone _ hfind)
      · rw [if_neg hopt] at h
        exact BitVec.eq_of_toNat_eq ((len_eq _ _).trans h.1)

/-- The first equals sign belongs to a later argument. -/
theorem equals_notMem {name more : List Byte} (hequals : equals ∉ name) (hname : ampersand ∈ name) :
    equals ∉ (name ++ equals :: more).takeWhile (· ≠ ampersand) := by
  rcases segments_cases ampersand name with hlast | ⟨before, behind, hbefore, rfl⟩
  · exact absurd hname hlast
  · rw [List.append_assoc, takeWhile_ne_append hbefore, List.cons_append, takeWhile_ne_cons,
      List.append_nil]
    exact fun hmem => hequals (List.mem_append_left _ hmem)

/-- **`parse_get` answers exactly if the first argument that begins with the name is the one of
this name**, or has no value and does not stand before it, and has an equals sign. -/
theorem parse_get_iff (s opt : CString) :
    Answers opt.bytes 0 s.bytes (parse_get s opt) ↔ Readable opt.bytes s.bytes := by
  unfold parse_get parseGetFrom Readable
  rcases search_cases opt.bytes 0 s.bytes with ⟨hfind, hnone⟩ | ⟨from_, rest, hfind, harg, hmem⟩
  · rw [hfind]
    refine iff_of_true (answers_notFound fun seg hseg => ?_) nofun
    exact absurd (hnone.symm.trans hseg) nofun
  · rw [hfind]
    dsimp only
    rcases segments_cases equals rest with hlast | ⟨name, more, hequals, rfl⟩
    · rw [foundAt, cut_eq_none_iff.mpr hlast]
      refine iff_of_true (answers_notFound fun seg hseg hin => ?_) fun _ _ hsome hin => ?_
      · have hseg' := List.mem_of_find?_eq_some (harg.symm.trans hseg)
        exact hlast ((of_mem_segments hseg').2.2 _ hin)
      · cases hsome
        exact absurd hin hlast
    by_cases hname : ampersand ∈ name
    · refine iff_of_false (fun h => ?_) fun h => ?_
      · exact absurd h.not_negative (Int.not_le.mpr (foundAt_negative hequals hname))
      · have hin : equals ∈ name ++ equals :: more :=
          List.mem_append_right _ List.mem_cons_self
        exact equals_notMem hequals hname (h _ _ rfl hin).1
    · have hvalue : (name ++ equals :: more).takeWhile (· ≠ ampersand) =
          name ++ equals :: more.takeWhile (· ≠ ampersand) := by
        rw [takeWhile_ne_append hname, List.takeWhile_cons_of_pos (by decide)]
      rw [foundAt_value hequals hname, answers_value_iff hequals harg hmem hvalue]
      constructor
      · rintro h start rest' hsome -
        cases hsome
        rw [hvalue, key_append hequals, value_append hequals]
        exact ⟨List.mem_append_right _ List.mem_cons_self, h⟩
      · intro h
        have hreadable := (h _ _ rfl (List.mem_append_right _ List.mem_cons_self)).2
        rwa [hvalue, key_append hequals, value_append hequals] at hreadable

/-- A longer name, and a name without an equals sign before another argument: a value that is
not asked for, and a length of minus three. -/
theorem parse_get_mistaken :
    ¬Answers (ascii "path") 0 (ascii "pathx=1")
        (parse_get ⟨ascii "pathx=1", by decide⟩ ⟨ascii "path", by decide⟩) ∧
      ¬Answers (ascii "path") 0 (ascii "path&x=1")
        (parse_get ⟨ascii "path&x=1", by decide⟩ ⟨ascii "path", by decide⟩) := by
  constructor
  · intro h
    have hnone : argument (ascii "path") 0 (ascii "pathx=1") = none := by decide +kernel
    have hlen := h.missing fun seg hseg => absurd (hnone.symm.trans hseg) nofun
    exact absurd hlen (by decide +kernel)
  · intro h
    exact absurd h.not_negative (by decide +kernel)

/-! ## As a value -/

/-- What the text at the place is, if it is short enough. -/
def Found.toArgument (s : List Byte) (r : Found) : Argument :=
  match r.arg with
  | none => .absent
  | some i => if r.difference < 0 then .negative else .value ((s.drop i).take r.difference.toNat)

theorem toArgument_foundAt {before s : List Byte} :
    (foundAt before.length s).toArgument (before ++ s) = argumentAt s := by
  rcases segments_cases equals s with hlast | ⟨name, more, hequals, rfl⟩
  · rw [foundAt, argumentAt, cut_eq_none_iff.mpr hlast]
    rfl
  · rw [argumentAt, cut_append more hequals]
    dsimp only
    by_cases hname : ampersand ∈ name
    · have hneg : (foundAt before.length (name ++ equals :: more)).difference < 0 :=
        foundAt_negative hequals hname
      rw [if_pos hname, Found.toArgument, foundAt, cut_append more hequals] at *
      exact if_pos hneg
    · have hdrop : (before ++ (name ++ equals :: more)).drop (before.length + name.length + 1) =
          more := by
        have hlength : before.length + name.length + 1 = (before ++ name ++ [equals]).length := by
          simp [Nat.add_assoc]
        have hsplit : before ++ (name ++ equals :: more) = before ++ name ++ [equals] ++ more := by
          simp
        rw [hlength, hsplit, List.drop_left]
      rw [if_neg hname, foundAt_value hequals hname, Found.toArgument]
      dsimp only
      rw [if_neg (Int.not_lt.mpr (Int.natCast_nonneg _)), Int.toNat_natCast, hdrop,
        ← List.prefix_iff_eq_take.mp (List.takeWhile_prefix _)]

/-- Names are looked for behind an ampersand only. -/
theorem parseGet_segment {opt before behind : List Byte} (hbefore : ampersand ∉ before) :
    parseGet opt false (before ++ ampersand :: behind) = parseGet opt true behind ∧
      parseGet opt false before = .absent := by
  induction before with
  | nil => exact ⟨rfl, rfl⟩
  | cons b before ih =>
    rw [List.mem_cons, not_or] at hbefore
    have hb : decide (b = ampersand) = false := decide_eq_false (Ne.symm hbefore.1)
    rw [List.cons_append, parseGet, parseGet, hb]
    exact ih hbefore.2

theorem parseGet_here {opt s : List Byte} (h : opt.isPrefixOf s) :
    parseGet opt true s = argumentAt s := by
  cases s with
  | nil => exact if_pos ⟨rfl, List.prefix_nil.mp (List.isPrefixOf_iff_prefix.mp h)⟩
  | cons b s => exact if_pos ⟨rfl, h⟩

theorem parseGet_skip {opt s : List Byte} {b : Byte} (h : ¬opt.isPrefixOf (b :: s)) :
    parseGet opt true (b :: s) = parseGet opt (b = ampersand) s :=
  if_neg fun hpre => h hpre.2

theorem toArgument_parseGetFrom (opt front s : List Byte) :
    (parseGetFrom opt front.length s).toArgument (front ++ s) = parseGet opt true s := by
  unfold parseGetFrom
  induction s using segments_induction ampersand generalizing front with
  | last s hlast =>
    by_cases hpre : opt.isPrefixOf s
    · rw [findSegment_here hpre, parseGet_here hpre]
      exact toArgument_foundAt
    · rw [findSegment_last hpre hlast]
      cases s with
      | nil =>
        have hopt : opt ≠ [] := by
          rintro rfl
          exact hpre rfl
        exact (if_neg fun h => hopt h.2).symm
      | cons b s =>
        rw [List.mem_cons, not_or] at hlast
        rw [parseGet_skip hpre, decide_eq_false (Ne.symm hlast.1),
          (@parseGet_segment opt s [] hlast.2).2]
        rfl
  | append before behind hbefore ih =>
    by_cases hpre : opt.isPrefixOf (before ++ ampersand :: behind)
    · rw [findSegment_here hpre, parseGet_here hpre]
      exact toArgument_foundAt
    · have hlength : front.length + before.length + 1 =
          (front ++ before ++ [ampersand]).length := by
        simp [Nat.add_assoc]
      have hsplit : front ++ (before ++ ampersand :: behind) =
          front ++ before ++ [ampersand] ++ behind := by
        simp
      rw [findSegment_append hpre hbefore, hlength, hsplit, ih]
      cases before with
      | nil => exact (parseGet_skip hpre).symm
      | cons b before =>
        rw [List.mem_cons, not_or] at hbefore
        rw [List.cons_append] at hpre ⊢
        rw [parseGet_skip hpre, decide_eq_false (Ne.symm hbefore.1),
          (parseGet_segment hbefore.2).1]

/-- The value of an argument, as the requests are modelled with. -/
theorem parse_get_toArgument (s opt : CString) (h : opt.bytes.length < 2 ^ 32) :
    (parse_get s opt).toArgument s.bytes = Network.parse_get s.bytes opt.bytes := by
  rw [parse_get, compared, Nat.mod_eq_of_lt h, List.take_length]
  exact toArgument_parseGetFrom opt.bytes [] s.bytes

end KasmVNC.Network.Query
