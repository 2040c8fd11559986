import KasmVNC.Unix.InputXkb

/-!
# Keys for added keysyms

`vncAddKeysym` puts a keysym on a key that is free. When there are few of them it takes the key
that was mapped longest ago out of the keymap again. The table of ages tells which one that is;
its first entry, which stands for no key, counts the calls.
-/

namespace KasmVNC.Unix

open KasmVNC.Lib

variable {κ : Type} (xkb : Xkb κ)

/-! ## What is removed -/

/-- The keys without a group that are not kept back, from the last to the first. -/
def unmappedKeys (input : Input κ) : List KeyCode :=
  (keycodes xkb input.keyboard.keymap).reverse.filter fun i =>
    xkb.keyNumGroups input.keyboard.keymap i = 0 ∧ input.needFree i ≠ UINT_MAX

/-- The table after the loop over all keys. -/
def lookAll (needFree : KeyCode → BitVec 32) : Oldest :=
  (List.range' 1 255).foldl Oldest.look ⟨needFree, 0, 0⟩

/-- The table with the new key in it. -/
def newAges (o : Oldest) (key : KeyCode) : KeyCode → BitVec 32 :=
  let age := o.needFree o.newest + 1
  Function.update (Function.update o.needFree o.newest age) key age

/-- `freeCnt < 3 && freeKeys` -/
def Scarce (input : Input κ) : Prop := (unmappedKeys xkb input).length < 3 ∧ input.freeKeys

instance (input : Input κ) : Decidable (Scarce xkb input) := inferInstanceAs (Decidable (_ ∧ _))

/-- The argument of `vncRemoveKeycode` in a call of `vncAddKeysym`. -/
def removedKeycode (input : Input κ) : Option KeyCode :=
  let key := (unmappedKeys xkb input).headD 0
  let o := lookAll input.needFree
  if key < xkb.minKeyCode input.keyboard.keymap then none
  else if Scarce xkb input ∧ newAges o key o.oldest ≠ 0 then some o.oldest
  else none

/-- What a call comes to. -/
theorem vncAddKeysym_eq (input : Input κ) (keysym : KeySym) :
    let key := (unmappedKeys xkb input).headD 0
    let o := lookAll input.needFree
    let keymap := input.keyboard.keymap
    vncAddKeysym xkb input keysym =
      if key < xkb.minKeyCode keymap then (input, 0)
      else if Scarce xkb input ∧ newAges o key o.oldest = 0 then
        ({ input with needFree := newAges o key }, 0)
      else
        ({ input with
          needFree := if Scarce xkb input then
            Function.update (newAges o key) o.oldest UINT_MAX else newAges o key
          keyboard := { input.keyboard with
            keymap := xkb.changeKey (if Scarce xkb input then
              xkb.removeKeycode keymap o.oldest else keymap) key (keyLevels xkb keysym) } },
          key) := rfl

section Mapped

variable {xkb} {input : Input κ} {keysym : KeySym}

/-- The table after a call. -/
def agesAfter (xkb : Xkb κ) (input : Input κ) : KeyCode → BitVec 32 :=
  let ages := newAges (lookAll input.needFree) ((unmappedKeys xkb input).headD 0)
  (removedKeycode xkb input).elim ages fun oldest => Function.update ages oldest UINT_MAX

/-- The keymap after a call. -/
def keymapAfter (xkb : Xkb κ) (input : Input κ) (keysym : KeySym) : κ :=
  let keymap := input.keyboard.keymap
  xkb.changeKey ((removedKeycode xkb input).elim keymap (xkb.removeKeycode keymap))
    ((unmappedKeys xkb input).headD 0) (keyLevels xkb keysym)

/-- A call that maps a key. The count of the calls has not started over, so that there is always
something to remove. -/
theorem vncAddKeysym_mapped (keysym : KeySym)
    (hkey : xkb.minKeyCode input.keyboard.keymap ≤ (unmappedKeys xkb input).headD 0)
    (hage : newAges (lookAll input.needFree) ((unmappedKeys xkb input).headD 0)
      (lookAll input.needFree).oldest ≠ 0) :
    vncAddKeysym xkb input keysym =
        ({ input with
          needFree := agesAfter xkb input
          keyboard := { input.keyboard with keymap := keymapAfter xkb input keysym } },
          (unmappedKeys xkb input).headD 0) ∧
      removedKeycode xkb input =
        if Scarce xkb input then some (lookAll input.needFree).oldest else none := by
  have hremoved : removedKeycode xkb input =
      if Scarce xkb input then some (lookAll input.needFree).oldest else none := by
    rw [removedKeycode, if_neg (Nat.not_lt.mpr hkey)]
    by_cases hscarce : Scarce xkb input
    · rw [if_pos ⟨hscarce, hage⟩, if_pos hscarce]
    · rw [if_neg fun h => hscarce h.1, if_neg hscarce]
  refine ⟨?_, hremoved⟩
  rw [vncAddKeysym_eq, if_neg (Nat.not_lt.mpr hkey), if_neg fun h => hage h.2, agesAfter,
    keymapAfter, hremoved]
  dsimp only
  split
  · rfl
  · rfl

/-- A call that finds no key. -/
theorem vncAddKeysym_unmapped (keysym : KeySym)
    (hkey : (unmappedKeys xkb input).headD 0 < xkb.minKeyCode input.keyboard.keymap) :
    vncAddKeysym xkb input keysym = (input, 0) ∧ removedKeycode xkb input = none := by
  constructor
  · rw [vncAddKeysym_eq, if_pos hkey]
  · rw [removedKeycode, if_pos hkey]

end Mapped

/-! ## The loop -/

section Loop

variable {needFree : KeyCode → BitVec 32} {n : ℕ}

/-- No age is greater than the count of the calls, which is not at its greatest value. -/
structure AgesCounted (needFree : KeyCode → BitVec 32) : Prop where
  below : needFree 0 < MAX_MAPPINGS
  le : ∀ i, needFree i = UINT_MAX ∨ needFree i ≤ needFree 0

/-- After the keys up to `n`. Those that were kept back are free. The oldest key is the first of
those with the least age, or the first entry if there is no lesser one. -/
structure Looked (needFree : KeyCode → BitVec 32) (n : ℕ) (o : Oldest) : Prop where
  newest : o.newest = 0
  ages : o.needFree = fun i => if 1 ≤ i ∧ i ≤ n ∧ needFree i = UINT_MAX then 0 else needFree i
  oldest : o.oldest = 0 ∨ o.oldest ≤ n ∧ 0 < needFree o.oldest ∧ needFree o.oldest < needFree 0
  least : ∀ i ≤ n, 0 < needFree i → needFree o.oldest ≤ needFree i

theorem AgesCounted.ne_max (h : AgesCounted needFree) (i : KeyCode) :
    needFree i ≠ MAX_MAPPINGS := by
  have hbelow := h.below
  rcases h.le i with hmax | hle
  · rw [hmax]
    decide
  · exact fun heq => absurd (heq ▸ hle) (BitVec.not_le.mpr hbelow)

theorem Looked.needFree_oldest {o : Oldest} (h : AgesCounted needFree) (ho : Looked needFree n o) :
    o.needFree o.oldest = needFree o.oldest := by
  rw [ho.ages]
  refine if_neg fun hmax => ?_
  rcases ho.oldest with hzero | ⟨-, -, hlt⟩
  · rw [hzero] at hmax
    exact absurd hmax.1 (by decide)
  · have hbelow := h.below
    rw [hmax.2.2] at hlt
    grind

/-- One turn, for the key behind the first `n`. -/
theorem looked_step (h : AgesCounted needFree) {o : Oldest} (ho : Looked needFree n o) :
    Looked needFree (n + 1) (o.look (n + 1)) := by
  have hsame : o.needFree (n + 1) = needFree (n + 1) := by
    rw [ho.ages]
    exact if_neg fun hmax => absurd hmax.2.1 (Nat.not_succ_le_self n)
  have hzero : o.needFree o.newest = needFree 0 := by
    rw [ho.newest, ho.ages]
    exact if_neg fun hmax => absurd hmax.1 (by decide)
  have hnewest : ¬(needFree (n + 1) > needFree 0 ∧ needFree (n + 1) ≠ UINT_MAX) := by
    rintro ⟨hgt, hne⟩
    exact absurd ((h.le (n + 1)).resolve_left hne) (BitVec.not_le.mpr hgt)
  have hlook : o.look (n + 1) =
      ⟨if needFree (n + 1) = UINT_MAX then Function.update o.needFree (n + 1) 0 else o.needFree,
        o.newest,
        if needFree (n + 1) < needFree o.oldest ∧ needFree (n + 1) > 0 then n + 1
          else o.oldest⟩ := by
    rw [Oldest.look, hsame, if_neg (h.ne_max (n + 1)), hsame, hzero, if_neg hnewest,
      ho.needFree_oldest h]
  rw [hlook]
  refine ⟨ho.newest, ?_, ?_, ?_⟩
  · have hcond {j : KeyCode} (hj : j = n + 1 → needFree (n + 1) ≠ UINT_MAX) :
        (1 ≤ j ∧ j ≤ n ∧ needFree j = UINT_MAX) ↔ 1 ≤ j ∧ j ≤ n + 1 ∧ needFree j = UINT_MAX := by
      refine and_congr_right fun _ => ⟨fun h => ⟨Nat.le_succ_of_le h.1, h.2⟩, fun h => ⟨?_, h.2⟩⟩
      rcases Nat.le_succ_iff.mp h.1 with hle | rfl
      · exact hle
      · exact absurd h.2 (hj rfl)
    funext j
    dsimp only
    by_cases hmax : needFree (n + 1) = UINT_MAX
    · rw [if_pos hmax]
      rcases eq_or_ne j (n + 1) with rfl | hj
      · rw [Function.update_self, if_pos ⟨Nat.succ_pos n, Nat.le_refl _, hmax⟩]
      · rw [Function.update_of_ne hj, ho.ages]
        exact if_congr (hcond fun heq => absurd heq hj) rfl rfl
    · rw [if_neg hmax, ho.ages]
      exact if_congr (hcond fun _ => hmax) rfl rfl
  · dsimp only
    split
    · next hless =>
        refine Or.inr ⟨Nat.le_refl _, hless.2, ?_⟩
        rcases ho.oldest with hold | ⟨-, -, hlt⟩
        · exact hold ▸ hless.1
        · exact BitVec.lt_trans hless.1 hlt
    · rcases ho.oldest with hold | ⟨hle, hrest⟩
      · exact Or.inl hold
      · exact Or.inr ⟨Nat.le_succ_of_le hle, hrest⟩
  · intro i hi hpos
    dsimp only
    rcases Nat.le_succ_iff.mp hi with hle | rfl
    · have hleast := ho.least i hle hpos
      split
      · next hless => exact BitVec.le_trans (BitVec.le_of_lt hless.1) hleast
      · exact hleast
    · split
      · exact BitVec.le_refl _
      · next hless => exact BitVec.not_lt.mp fun hlt => hless ⟨hlt, hpos⟩

theorem looked_lookAll (h : AgesCounted needFree) : Looked needFree 255 (lookAll needFree) := by
  have hstart : Looked needFree 0 ⟨needFree, 0, 0⟩ := by
    refine ⟨rfl, ?_, Or.inl rfl, fun i hi _ => ?_⟩
    · funext j
      exact (if_neg fun hmax => absurd (Nat.le_trans hmax.1 hmax.2.1) (by decide)).symm
    · rw [Nat.le_zero.mp hi]
      exact BitVec.le_refl _
  have hloop : ∀ k, Looked needFree k
      ((List.range' 1 k).foldl Oldest.look ⟨needFree, 0, 0⟩) := by
    intro k
    induction k with
    | zero => exact hstart
    | succ k ih =>
      rw [List.range'_1_concat, List.foldl_append, Nat.add_comm 1 k]
      exact looked_step h ih
  exact hloop 255

end Loop

/-! ## Sequences of calls -/

/-- What X says about keymaps: legal codes, which never change, and which keys have groups after
a change. -/
structure Xkb.Lawful (xkb : Xkb κ) : Prop where
  legal : ∀ m, 8 ≤ xkb.minKeyCode m ∧ xkb.maxKeyCode m ≤ 255
  changeKey_range : ∀ m k levels, xkb.minKeyCode (xkb.changeKey m k levels) = xkb.minKeyCode m ∧
    xkb.maxKeyCode (xkb.changeKey m k levels) = xkb.maxKeyCode m
  removeKeycode_range : ∀ m k, xkb.minKeyCode (xkb.removeKeycode m k) = xkb.minKeyCode m ∧
    xkb.maxKeyCode (xkb.removeKeycode m k) = xkb.maxKeyCode m
  changeKey_groups : ∀ m k levels, xkb.keyNumGroups (xkb.changeKey m k levels) k = 1
  changeKey_others : ∀ m k levels j, j ≠ k →
    xkb.keyNumGroups (xkb.changeKey m k levels) j = xkb.keyNumGroups m j
  removeKeycode_others : ∀ m k j, j ≠ k →
    xkb.keyNumGroups (xkb.removeKeycode m k) j = xkb.keyNumGroups m j

/-- A key has the levels of its only group, or no group. -/
def levelsXkb : Xkb (KeyCode → Option (List KeySym)) where
  minKeyCode _ := 8
  maxKeyCode _ := 255
  translateKeyCode keymap key state :=
    match keymap key with
    | some [lower, upper] => (ShiftMask, if state &&& ShiftMask ≠ 0 then upper else lower)
    | some (keysym :: _) => (0, keysym)
    | _ => (0, NoSymbol)
  convertCase keysym := (keysym, keysym)
  keyAction _ _ _ := none
  modmap _ _ := 0
  typeMask keymap key _ := if (keymap key).any fun levels => levels.length = 2 then 1 else 0
  keyNumGroups keymap key := if (keymap key).isSome then 1 else 0
  changeKey keymap key levels := Function.update keymap key (some levels)
  removeKeycode keymap key := Function.update keymap key none

theorem levelsXkb_lawful : levelsXkb.Lawful where
  legal _ := ⟨Nat.le_refl _, Nat.le_refl _⟩
  changeKey_range _ _ _ := ⟨rfl, rfl⟩
  removeKeycode_range _ _ := ⟨rfl, rfl⟩
  changeKey_groups m k levels := by
    show (if (Function.update m k (some levels) k).isSome then 1 else 0) = 1
    rw [Function.update_self]
    rfl
  changeKey_others m k levels j hj := by
    show (if (Function.update m k (some levels) j).isSome then 1 else 0) = _
    rw [Function.update_of_ne hj]
    rfl
  removeKeycode_others m k j hj := by
    show (if (Function.update m k none j).isSome then 1 else 0) = _
    rw [Function.update_of_ne hj]
    rfl

/-- The keys that have been mapped and not removed since are recorded in the order in which they
were mapped. -/
structure Recycling (κ : Type) where
  input : Input κ
  added : List KeyCode

namespace Recycling

/-- No call has been made; `freeKeys` is on. -/
def start (keyboard : Keyboard κ) (pressedKeys : KeyCode → KeySym) (avoidShiftNumLock : Bool) :
    Recycling κ :=
  ⟨⟨keyboard, pressedKeys, fun _ => 0, true, avoidShiftNumLock⟩, []⟩

def step (s : Recycling κ) (keysym : KeySym) : Recycling κ :=
  let (input, key) := vncAddKeysym xkb s.input keysym
  let left := (removedKeycode xkb s.input).elim s.added s.added.erase
  ⟨input, if key = 0 then left else left ++ [key]⟩

/-- What is removed is the key mapped longest ago of those that are, it is in the range, and it is
not the one that is mapped now. -/
def RemovesOldest (s : Recycling κ) (keysym : KeySym) : Prop :=
  ∀ k ∈ removedKeycode xkb s.input, s.added.head? = some k ∧
    k ∈ keycodes xkb s.input.keyboard.keymap ∧ k ≠ (vncAddKeysym xkb s.input keysym).2

/-- The calls that have been counted are not too many. -/
def CountBelow (s : Recycling κ) (_ : KeySym) : Prop := s.input.needFree 0 < MAX_MAPPINGS

/-- When a key is mapped although few are free, two others are mapped already. -/
def TwoAdded (s : Recycling κ) (_ : KeySym) : Prop :=
  unmappedKeys xkb s.input ≠ [] → (unmappedKeys xkb s.input).length < 3 → 2 ≤ s.added.length

/-! ### What the table says -/

/-- The keys that have an age are those that are mapped, in the order of their ages, and the last
one is as old as the count. -/
structure Aged (s : Recycling κ) : Prop where
  freeKeys : s.input.freeKeys = true
  ages : ∀ k, k ≠ 0 → s.input.needFree k = 0 ∨ s.input.needFree k = UINT_MAX ∨
    k ∈ s.added ∧ s.input.needFree k ≤ s.input.needFree 0
  positive : ∀ k ∈ s.added, 0 < s.input.needFree k ∧ s.input.needFree k ≠ UINT_MAX
  sorted : s.added.Pairwise fun j k => s.input.needFree j < s.input.needFree k
  last : ∀ k ∈ s.added.getLast?, s.input.needFree k = s.input.needFree 0
  mapped : ∀ k ∈ s.added, k ∈ keycodes xkb s.input.keyboard.keymap ∧
    xkb.keyNumGroups s.input.keyboard.keymap k ≠ 0

variable {xkb} {s : Recycling κ}

theorem aged_start (xkb : Xkb κ) (keyboard : Keyboard κ) (pressedKeys : KeyCode → KeySym)
    (avoidShiftNumLock : Bool) : (start keyboard pressedKeys avoidShiftNumLock).Aged xkb where
  freeKeys := rfl
  ages _ _ := Or.inl rfl
  positive _ h := absurd h List.not_mem_nil
  sorted := List.Pairwise.nil
  last _ h := absurd h nofun
  mapped _ h := absurd h List.not_mem_nil

/-- What counting on does to ages. -/
theorem lt_count_succ {a c : BitVec 32} (hbelow : c < MAX_MAPPINGS) (ha : a ≤ c) :
    a < c + 1 ∧ c + 1 ≠ UINT_MAX := by
  have hmax : MAX_MAPPINGS.toNat = 2 ^ 32 - 2 := rfl
  have hone : (1 : BitVec 32).toNat = 1 := rfl
  rw [BitVec.lt_def, hmax] at hbelow
  have hsucc : (c + 1).toNat = c.toNat + 1 := by
    rw [BitVec.toNat_add, hone]
    exact Nat.mod_eq_of_lt (by omega)
  rw [BitVec.le_def] at ha
  refine ⟨BitVec.lt_def.mpr (by omega), fun heq => ?_⟩
  have htoNat := congrArg BitVec.toNat heq
  rw [hsucc] at htoNat
  have huint : UINT_MAX.toNat = 2 ^ 32 - 1 := rfl
  omega

theorem Aged.counted (h : s.Aged xkb) (hbelow : s.input.needFree 0 < MAX_MAPPINGS) :
    AgesCounted s.input.needFree where
  below := hbelow
  le i := by
    rcases eq_or_ne i 0 with rfl | hi
    · exact Or.inr (BitVec.le_refl _)
    · rcases h.ages i hi with hzero | hmax | ⟨-, hle⟩
      · rw [hzero]
        exact Or.inr (BitVec.le_def.mpr (Nat.zero_le _))
      · exact Or.inl hmax
      · exact Or.inr hle

theorem mem_range_legal {k lo hi : ℕ} (hk : k ∈ List.range' lo (hi + 1 - lo)) (hlo : 8 ≤ lo)
    (hhi : hi ≤ 255) : k ≠ 0 ∧ k ≤ 255 := by
  have hmem := List.mem_range'_1.mp hk
  omega

theorem mem_keycodes_legal (hx : xkb.Lawful) {m : κ} {k : KeyCode} (hk : k ∈ keycodes xkb m) :
    k ≠ 0 ∧ k ≤ 255 :=
  mem_range_legal hk (hx.legal m).1 (hx.legal m).2

/-- A key that is not yet mapped has no age. -/
theorem Aged.unmapped (hx : xkb.Lawful) (h : s.Aged xkb) {key : KeyCode}
    (hkey : key ∈ unmappedKeys xkb s.input) :
    key ∈ keycodes xkb s.input.keyboard.keymap ∧ key ≠ 0 ∧ key ∉ s.added ∧
      s.input.needFree key = 0 := by
  obtain ⟨hrange, hfree⟩ := List.mem_filter.mp hkey
  rw [List.mem_reverse] at hrange
  obtain ⟨hgroups, hkept⟩ := of_decide_eq_true hfree
  have hadded : key ∉ s.added := fun hmem => (h.mapped key hmem).2 hgroups
  have hpos : key ≠ 0 := (mem_keycodes_legal hx hrange).1
  refine ⟨hrange, hpos, hadded, ?_⟩
  rcases h.ages key hpos with hzero | hmax | ⟨hmem, -⟩
  · exact hzero
  · exact absurd hmax hkept
  · exact absurd hmem hadded

/-- A key older than the count is one that is mapped. -/
theorem Aged.mem_of_lt (h : s.Aged xkb) {k : KeyCode}
    (hbelow : s.input.needFree 0 < MAX_MAPPINGS) (hk : k ≠ 0) (hpos : 0 < s.input.needFree k)
    (hlt : s.input.needFree k < s.input.needFree 0) : k ∈ s.added := by
  rcases h.ages k hk with hzero | hmax | ⟨hmem, -⟩
  · rw [hzero] at hpos
    exact absurd hpos (BitVec.lt_irrefl _)
  · rw [hmax] at hlt
    exact absurd (BitVec.lt_trans hlt hbelow) (by decide)
  · exact hmem

/-- The last key that was mapped is as old as the count, so that all before it are older. -/
theorem Aged.lt_count (h : s.Aged xkb) {a b : KeyCode} {as : List KeyCode}
    (hadded : s.added = a :: b :: as) : s.input.needFree a < s.input.needFree 0 := by
  have hlast : (b :: as).getLast (List.cons_ne_nil b as) ∈ s.added.getLast? := by
    rw [hadded, List.getLast?_cons_cons, List.getLast?_eq_getLast_of_ne_nil]
    rfl
  rw [← h.last _ hlast]
  have hsorted := h.sorted
  rw [hadded] at hsorted
  exact List.rel_of_pairwise_cons hsorted (List.getLast_mem _)

/-- With two keys that are mapped, the oldest is the first of them. -/
theorem Aged.oldest_eq_head (hx : xkb.Lawful) (h : s.Aged xkb)
    (hbelow : s.input.needFree 0 < MAX_MAPPINGS) {a b : KeyCode} {as : List KeyCode}
    (hadded : s.added = a :: b :: as) : (lookAll s.input.needFree).oldest = a := by
  have hlook := looked_lookAll (h.counted hbelow)
  have ha : a ∈ s.added := hadded ▸ List.mem_cons_self
  have hleast : s.input.needFree (lookAll s.input.needFree).oldest ≤ s.input.needFree a := by
    exact hlook.least a (mem_keycodes_legal hx (h.mapped a ha).1).2 (h.positive a ha).1
  rcases hlook.oldest with hzero | ⟨-, hpos, hlt⟩
  · rw [hzero] at hleast
    exact absurd hleast (BitVec.not_le.mpr (h.lt_count hadded))
  · by_contra hne
    have hold : (lookAll s.input.needFree).oldest ∈ b :: as := by
      have hmem := h.mem_of_lt hbelow (fun h0 => BitVec.lt_irrefl _ (h0 ▸ hlt)) hpos hlt
      rw [hadded] at hmem
      exact (List.mem_cons.mp hmem).resolve_left hne
    have hsorted := h.sorted
    rw [hadded] at hsorted
    exact absurd hleast (BitVec.not_le.mpr (List.rel_of_pairwise_cons hsorted hold))

/-- With one key or none there is no oldest one. -/
theorem Aged.oldest_eq_zero (h : s.Aged xkb) (hbelow : s.input.needFree 0 < MAX_MAPPINGS)
    (hadded : s.added.length < 2) : (lookAll s.input.needFree).oldest = 0 := by
  rcases (looked_lookAll (h.counted hbelow)).oldest with hzero | ⟨-, hpos, hlt⟩
  · exact hzero
  · have hmem := h.mem_of_lt hbelow (fun h0 => BitVec.lt_irrefl _ (h0 ▸ hlt)) hpos hlt
    -- the only key is the last one
    have hlast : (lookAll s.input.needFree).oldest ∈ s.added.getLast? := by
      have hpos := List.length_pos_of_mem hmem
      obtain ⟨k, hk⟩ := List.length_eq_one_iff.mp (show s.added.length = 1 by omega)
      rw [hk, List.mem_singleton] at hmem
      rw [hk, hmem, List.getLast?_singleton, Option.mem_some]
    rw [h.last _ hlast] at hlt
    exact absurd hlt (BitVec.lt_irrefl _)

/-! ### A call that maps a key -/

section Mapping

variable {key : KeyCode}

/-- The table before anything is removed. -/
theorem Aged.newAges_apply (h : s.Aged xkb) (hbelow : s.input.needFree 0 < MAX_MAPPINGS)
    (i : KeyCode) : newAges (lookAll s.input.needFree) key i =
      if i = key ∨ i = 0 then s.input.needFree 0 + 1
      else if 1 ≤ i ∧ i ≤ 255 ∧ s.input.needFree i = UINT_MAX then 0 else s.input.needFree i := by
  have hlook := looked_lookAll (h.counted hbelow)
  have hcount : (lookAll s.input.needFree).needFree 0 = s.input.needFree 0 := by
    rw [hlook.ages]
    exact if_neg fun hmax => absurd hmax.1 (by decide)
  rw [newAges, hlook.newest, hcount]
  rcases eq_or_ne i key with rfl | hkey
  · rw [Function.update_self, if_pos (Or.inl rfl)]
  · rw [Function.update_of_ne hkey]
    rcases eq_or_ne i 0 with rfl | hzero
    · rw [Function.update_self, if_pos (Or.inr rfl)]
    · rw [Function.update_of_ne hzero, if_neg (not_or.mpr ⟨hkey, hzero⟩), hlook.ages]

/-- There is always something to remove: the oldest entry is a count that is not 0. -/
theorem Aged.newAges_oldest (h : s.Aged xkb) (hbelow : s.input.needFree 0 < MAX_MAPPINGS) :
    newAges (lookAll s.input.needFree) key (lookAll s.input.needFree).oldest ≠ 0 := by
  have hcount : s.input.needFree 0 + 1 ≠ 0 := by
    intro heq
    have hlt := (lt_count_succ hbelow (BitVec.le_refl _)).1
    rw [heq, BitVec.lt_def] at hlt
    exact absurd hlt (Nat.not_lt_zero _)
  rw [h.newAges_apply hbelow]
  split
  · exact hcount
  · next hother =>
      rcases (looked_lookAll (h.counted hbelow)).oldest with hzero | ⟨hle, hpos, hlt⟩
      · exact absurd (Or.inr hzero) hother
      · rw [if_neg fun hmax => ?_]
        · exact fun heq => absurd (heq ▸ hpos) (BitVec.lt_irrefl _)
        · rw [hmax.2.2] at hlt
          exact absurd (BitVec.lt_trans hlt hbelow) (by decide)

/-- The call maps the last key that is free, and removes the oldest one if few are. -/
theorem Aged.mapping (hx : xkb.Lawful) (h : s.Aged xkb)
    (hbelow : s.input.needFree 0 < MAX_MAPPINGS) (keysym : KeySym)
    (hmapped : unmappedKeys xkb s.input ≠ []) :
    ∃ key ∈ unmappedKeys xkb s.input, (unmappedKeys xkb s.input).headD 0 = key ∧
      (vncAddKeysym xkb s.input keysym).2 = key ∧
      (vncAddKeysym xkb s.input keysym).1 =
        { s.input with
          needFree := agesAfter xkb s.input
          keyboard := { s.input.keyboard with keymap := keymapAfter xkb s.input keysym } } ∧
      removedKeycode xkb s.input =
        if Scarce xkb s.input then some (lookAll s.input.needFree).oldest else none := by
  have hhead : (unmappedKeys xkb s.input).headD 0 ∈ unmappedKeys xkb s.input := by
    obtain ⟨k, ks, hks⟩ := List.exists_cons_of_ne_nil hmapped
    rw [hks]
    exact List.mem_cons_self
  have hmin := (List.mem_range'_1.mp (h.unmapped hx hhead).1).1
  obtain ⟨hcall, hremoved⟩ := vncAddKeysym_mapped keysym hmin (h.newAges_oldest hbelow)
  exact ⟨_, hhead, rfl, by rw [hcall], by rw [hcall], hremoved⟩

end Mapping

/-! ### One call -/

/-- A call that finds no key changes nothing. -/
theorem step_unmapped (hx : xkb.Lawful) (keysym : KeySym)
    (hnone : unmappedKeys xkb s.input = []) :
    step xkb s keysym = s ∧ removedKeycode xkb s.input = none := by
  have hlegal := (hx.legal s.input.keyboard.keymap).1
  obtain ⟨hcall, hremoved⟩ := vncAddKeysym_unmapped keysym
    (show (unmappedKeys xkb s.input).headD 0 < _ by
      rw [hnone]
      exact Nat.lt_of_lt_of_le (by decide) hlegal)
  refine ⟨?_, hremoved⟩
  rw [step, hcall, hremoved]
  rfl

/-- What is removed is the oldest key exactly if two were mapped before. -/
theorem Aged.removesOldest_iff (hx : xkb.Lawful) (h : s.Aged xkb) {keysym : KeySym}
    (hbelow : s.CountBelow keysym) : s.RemovesOldest xkb keysym ↔ s.TwoAdded xkb keysym := by
  by_cases hnone : unmappedKeys xkb s.input = []
  · have hremoved := (step_unmapped hx keysym hnone).2
    refine iff_of_true (fun k hk => ?_) fun hne => absurd hnone hne
    rw [hremoved] at hk
    cases hk
  · obtain ⟨key, hkey, -, hresult, -, hremoved⟩ := h.mapping hx hbelow keysym hnone
    rw [RemovesOldest, hresult, hremoved]
    by_cases hscarce : Scarce xkb s.input
    · rw [if_pos hscarce]
      by_cases htwo : 2 ≤ s.added.length
      · refine iff_of_true (fun k hk => ?_) fun _ _ => htwo
        obtain rfl := Option.some.inj hk
        obtain ⟨a, b, as, hadded⟩ : ∃ a b as, s.added = a :: b :: as := by
          match s.added, htwo with
          | a :: b :: as, _ => exact ⟨a, b, as, rfl⟩
        have hmem : a ∈ s.added := hadded ▸ List.mem_cons_self
        rw [h.oldest_eq_head hx hbelow hadded]
        refine ⟨by rw [hadded, List.head?_cons], (h.mapped a hmem).1, fun heq => ?_⟩
        exact (h.unmapped hx hkey).2.2.1 (heq ▸ hmem)
      · refine iff_of_false (fun hoff => ?_) fun hadded => htwo (hadded hnone hscarce.1)
        have hrange := (hoff _ rfl).2.1
        rw [h.oldest_eq_zero hbelow (Nat.lt_of_not_le htwo)] at hrange
        exact (mem_keycodes_legal hx hrange).1 rfl
    · rw [if_neg hscarce]
      refine iff_of_true (fun k hk => absurd hk nofun) fun _ hfew => ?_
      exact absurd ⟨hfew, h.freeKeys⟩ hscarce

/-- The state after a call that removes the oldest key or none. -/
theorem Aged.step_mapped (hx : xkb.Lawful) (h : s.Aged xkb) {keysym : KeySym}
    (hbelow : s.CountBelow keysym) (hoff : s.RemovesOldest xkb keysym)
    (hmapped : unmappedKeys xkb s.input ≠ []) :
    ∃ key ∈ unmappedKeys xkb s.input, (unmappedKeys xkb s.input).headD 0 = key ∧ ∃ left,
      s.added = (removedKeycode xkb s.input).toList ++ left ∧
      (∀ k ∈ removedKeycode xkb s.input, k ∈ s.added) ∧
      step xkb s keysym = ⟨{ s.input with
        needFree := agesAfter xkb s.input
        keyboard := { s.input.keyboard with keymap := keymapAfter xkb s.input keysym } },
        left ++ [key]⟩ := by
  obtain ⟨key, hkey, hhead, hresult, hinput, -⟩ := h.mapping hx hbelow keysym hmapped
  have hne : key ≠ 0 := (h.unmapped hx hkey).2.1
  have hstep : ∀ left, (removedKeycode xkb s.input).elim s.added s.added.erase = left →
      step xkb s keysym = ⟨(vncAddKeysym xkb s.input keysym).1, left ++ [key]⟩ := by
    intro left hleft
    rw [step, hleft]
    dsimp only
    rw [hresult, if_neg hne]
  rw [hinput] at hstep
  refine ⟨key, hkey, hhead, ?_⟩
  cases hremoved : removedKeycode xkb s.input with
  | none =>
    rw [hremoved] at hstep
    exact ⟨s.added, rfl, fun k hk => absurd hk nofun, hstep _ rfl⟩
  | some a =>
    rw [hremoved] at hstep
    obtain ⟨rest, hadded⟩ : ∃ rest, s.added = a :: rest := by
      have hhead := (hoff a hremoved).1
      cases hs : s.added with
      | nil =>
        rw [hs] at hhead
        cases hhead
      | cons b rest =>
        rw [hs] at hhead
        exact ⟨rest, congrArg (· :: rest) (Option.some.inj hhead)⟩
    refine ⟨rest, hadded, fun k hk => ?_, hstep rest ?_⟩
    · obtain rfl := Option.some.inj hk
      exact hadded ▸ List.mem_cons_self
    · rw [Option.elim_some, hadded, List.erase_cons_head]

/-- The table after a call. -/
theorem Aged.agesAfter_apply (h : s.Aged xkb) (hbelow : s.input.needFree 0 < MAX_MAPPINGS)
    (i : KeyCode) : agesAfter xkb s.input i =
      if i ∈ removedKeycode xkb s.input then UINT_MAX
      else if i = (unmappedKeys xkb s.input).headD 0 ∨ i = 0 then s.input.needFree 0 + 1
      else if 1 ≤ i ∧ i ≤ 255 ∧ s.input.needFree i = UINT_MAX then 0 else s.input.needFree i := by
  rw [agesAfter, ← h.newAges_apply hbelow]
  cases removedKeycode xkb s.input with
  | none => exact (if_neg nofun).symm
  | some a =>
    rw [Option.elim_some]
    rcases eq_or_ne i a with rfl | hne
    · rw [Function.update_self, if_pos (Option.mem_some.mpr rfl)]
    · rw [Function.update_of_ne hne, if_neg fun hi => hne (Option.mem_some.mp hi).symm]

theorem Aged.count_after (hx : xkb.Lawful) (h : s.Aged xkb)
    (hbelow : s.input.needFree 0 < MAX_MAPPINGS)
    (hremoved : ∀ k ∈ removedKeycode xkb s.input, k ∈ s.added) :
    agesAfter xkb s.input 0 = s.input.needFree 0 + 1 := by
  rw [h.agesAfter_apply hbelow, if_neg, if_pos (Or.inr rfl)]
  exact fun hzero => (mem_keycodes_legal hx (h.mapped 0 (hremoved 0 hzero)).1).1 rfl

/-- The age of a key that was mapped before and still is. -/
theorem Aged.agesAfter_of_mem (hx : xkb.Lawful) (h : s.Aged xkb)
    (hbelow : s.input.needFree 0 < MAX_MAPPINGS) {key k : KeyCode}
    (hkey : (unmappedKeys xkb s.input).headD 0 = key) (hk : k ∈ s.added) (hne : k ≠ key)
    (hleft : k ∉ removedKeycode xkb s.input) :
    agesAfter xkb s.input k = s.input.needFree k := by
  rw [h.agesAfter_apply hbelow, if_neg hleft, hkey, if_neg, if_neg]
  · exact fun hmax => (h.positive k hk).2 hmax.2.2
  · exact not_or.mpr ⟨hne, (mem_keycodes_legal hx (h.mapped k hk).1).1⟩

/-- Which keys have groups after a call. -/
theorem Aged.mapped_after (hx : xkb.Lawful) {keysym : KeySym} {k : KeyCode}
    (hk : k ∈ keycodes xkb s.input.keyboard.keymap)
    (hgroups : k = (unmappedKeys xkb s.input).headD 0 ∨
      xkb.keyNumGroups s.input.keyboard.keymap k ≠ 0 ∧ k ∉ removedKeycode xkb s.input) :
    k ∈ keycodes xkb (keymapAfter xkb s.input keysym) ∧
      xkb.keyNumGroups (keymapAfter xkb s.input keysym) k ≠ 0 := by
  rw [keymapAfter]
  generalize keyLevels xkb keysym = levels
  constructor
  · rw [keycodes, (hx.changeKey_range _ _ _).1, (hx.changeKey_range _ _ _).2]
    cases removedKeycode xkb s.input with
    | none => exact hk
    | some a =>
      rw [Option.elim_some, (hx.removeKeycode_range _ _).1, (hx.removeKeycode_range _ _).2]
      exact hk
  · rcases eq_or_ne k ((unmappedKeys xkb s.input).headD 0) with rfl | hne
    · rw [hx.changeKey_groups]
      exact Nat.one_ne_zero
    · rw [hx.changeKey_others _ _ _ _ hne]
      obtain ⟨hsome, hleft⟩ := hgroups.resolve_left hne
      cases hremoved : removedKeycode xkb s.input with
      | none => exact hsome
      | some a =>
        rw [Option.elim_some, hx.removeKeycode_others]
        · exact hsome
        · exact fun heq => hleft (hremoved.trans (congrArg some heq.symm))

theorem Aged.step (hx : xkb.Lawful) (h : s.Aged xkb) {keysym : KeySym}
    (hbelow : s.CountBelow keysym) (hoff : s.RemovesOldest xkb keysym) :
    (Recycling.step xkb s keysym).Aged xkb := by
  by_cases hnone : unmappedKeys xkb s.input = []
  · rw [(step_unmapped hx _ hnone).1]
    exact h
  obtain ⟨key, hkey, hhead, left, hadded, hremoved, hstep⟩ :=
    h.step_mapped hx hbelow hoff hnone
  obtain ⟨hrange, hpos, hnew, -⟩ := h.unmapped hx hkey
  have hsorted := h.sorted
  rw [hadded, List.pairwise_append] at hsorted
  -- a key that is left is neither the one removed nor the new one
  have hleft : ∀ k ∈ left, k ∈ s.added ∧ k ≠ key ∧ k ∉ removedKeycode xkb s.input := by
    intro k hk
    have hmem : k ∈ s.added := hadded ▸ List.mem_append_right _ hk
    refine ⟨hmem, fun heq => hnew (heq ▸ hmem), fun hk' => ?_⟩
    exact BitVec.lt_irrefl _ (hsorted.2.2 k (Option.mem_toList.mpr hk') k hk)
  have hages : ∀ k ∈ left, agesAfter xkb s.input k = s.input.needFree k := by
    intro k hk
    obtain ⟨hmem, hne, hout⟩ := hleft k hk
    exact h.agesAfter_of_mem hx hbelow hhead hmem hne hout
  have hcount := h.count_after hx hbelow hremoved
  have hage : agesAfter xkb s.input key = s.input.needFree 0 + 1 := by
    rw [h.agesAfter_apply hbelow, if_neg, if_pos (Or.inl hhead.symm)]
    exact fun hk => hnew (hremoved key hk)
  have hgrow : ∀ k ∈ s.added, s.input.needFree k < s.input.needFree 0 + 1 := by
    intro k hk
    refine (lt_count_succ hbelow (((h.counted hbelow).le k).resolve_left ?_)).1
    exact (h.positive k hk).2
  rw [hstep]
  refine ⟨h.freeKeys, fun k hk => ?_, ?_, ?_, ?_, ?_⟩
  · dsimp only
    rw [hcount]
    by_cases hout : k ∈ removedKeycode xkb s.input
    · rw [h.agesAfter_apply hbelow, if_pos hout]
      exact Or.inr (Or.inl rfl)
    by_cases hmem : k ∈ left ++ [key]
    · refine Or.inr (Or.inr ⟨hmem, ?_⟩)
      rcases List.mem_append.mp hmem with hk' | hk'
      · rw [hages k hk']
        exact BitVec.le_of_lt (hgrow k (hleft k hk').1)
      · rw [List.mem_singleton.mp hk', hage]
        exact BitVec.le_refl _
    · have hne : k ≠ key := fun heq => hmem (heq ▸ List.mem_append_right _ List.mem_cons_self)
      have hgone : k ∉ s.added := by
        rw [hadded, List.mem_append, Option.mem_toList]
        exact not_or.mpr ⟨hout, fun hk' => hmem (List.mem_append_left _ hk')⟩
      rw [h.agesAfter_apply hbelow, if_neg hout, hhead, if_neg (not_or.mpr ⟨hne, hk⟩)]
      split
      · exact Or.inl rfl
      · rcases h.ages k hk with hzero | hmax | ⟨hk', -⟩
        · exact Or.inl hzero
        · exact Or.inr (Or.inl hmax)
        · exact absurd hk' hgone
  · intro k hk
    dsimp only
    rcases List.mem_append.mp hk with hk' | hk'
    · rw [hages k hk']
      exact h.positive k (hleft k hk').1
    · obtain ⟨hlt, hmax⟩ := lt_count_succ hbelow (BitVec.le_refl _)
      rw [List.mem_singleton.mp hk', hage]
      exact ⟨BitVec.lt_def.mpr (Nat.zero_lt_of_lt (BitVec.lt_def.mp hlt)), hmax⟩
  · refine List.pairwise_append.mpr ⟨?_, List.pairwise_singleton _ _, fun j hj k hk => ?_⟩
    · refine hsorted.2.1.imp_of_mem fun hj hk hlt => ?_
      dsimp only
      rw [hages _ hj, hages _ hk]
      exact hlt
    · dsimp only
      rw [List.mem_singleton.mp hk, hage, hages j hj]
      exact hgrow j (hleft j hj).1
  · intro k hk
    rw [List.getLast?_concat] at hk
    obtain rfl := Option.some.inj hk
    exact hage.trans hcount.symm
  · intro k hk
    rcases List.mem_append.mp hk with hk' | hk'
    · obtain ⟨hmem, -, hout⟩ := hleft k hk'
      obtain ⟨hk'', hgroups⟩ := h.mapped k hmem
      exact Aged.mapped_after hx hk'' (Or.inr ⟨hgroups, hout⟩)
    · rw [List.mem_singleton.mp hk']
      exact Aged.mapped_after hx hrange (Or.inl hhead.symm)

/-- As long as the calls that have been counted are not too many, what is removed is the key that
was mapped longest ago, in every run, exactly if a call that finds fewer than three keys free finds
two keys mapped by earlier calls. The branch that gives up for want of a key to remove is never
taken. -/
theorem removes_oldest_iff (hx : xkb.Lawful) (keyboard : Keyboard κ)
    (pressedKeys : KeyCode → KeySym) (avoidShiftNumLock : Bool) (keysyms : List KeySym) :
    Guarded (Recycling.step xkb) (fun s keysym => s.RemovesOldest xkb keysym ∧ s.CountBelow keysym)
        (start keyboard pressedKeys avoidShiftNumLock) keysyms ↔
      Guarded (Recycling.step xkb) (fun s keysym => s.TwoAdded xkb keysym ∧ s.CountBelow keysym)
        (start keyboard pressedKeys avoidShiftNumLock) keysyms := by
  have hstart := aged_start xkb keyboard pressedKeys avoidShiftNumLock
  constructor
  · refine guarded_imp (I := Aged xkb) (fun s keysym h hok => h.step hx hok.2 hok.1) ?_ hstart
    exact fun s keysym h hok => ⟨(h.removesOldest_iff hx hok.2).mp hok.1, hok.2⟩
  · refine guarded_imp (I := Aged xkb) (fun s keysym h hok => ?_) ?_ hstart
    · exact h.step hx hok.2 ((h.removesOldest_iff hx hok.2).mpr hok.1)
    · exact fun s keysym h hok => ⟨(h.removesOldest_iff hx hok.2).mpr hok.1, hok.2⟩

/-! ### A keymap with few keys free -/

/-- All keys before one give a, those from it on are free. -/
def freeFrom (key : KeyCode) : Keyboard (KeyCode → Option (List KeySym)) :=
  ⟨fun k => if k < key then some [0x61] else none, 0, fun _ => false⟩

def freeFromStart (key : KeyCode) : Recycling (KeyCode → Option (List KeySym)) :=
  start (freeFrom key) (fun _ => NoSymbol) false

/-- A call that maps a key is counted. -/
theorem Aged.count_step (hx : xkb.Lawful) (h : s.Aged xkb) {keysym : KeySym}
    (hbelow : s.CountBelow keysym) (hoff : s.RemovesOldest xkb keysym)
    (hmapped : unmappedKeys xkb s.input ≠ []) :
    (Recycling.step xkb s keysym).input.needFree 0 = s.input.needFree 0 + 1 := by
  obtain ⟨key, -, -, left, -, hremoved, hstep⟩ := h.step_mapped hx hbelow hoff hmapped
  rw [hstep]
  exact h.count_after hx hbelow hremoved

/-- The signs of three currencies with four keys free: the third call removes the key of the
first. -/
theorem removes_oldest_euro :
    Guarded (Recycling.step levelsXkb)
        (fun s keysym => s.RemovesOldest levelsXkb keysym ∧ s.CountBelow keysym)
        (freeFromStart 252) [0x20AC, 0x20AB, 0x20AD] ∧
      removedKeycode levelsXkb
        (run (Recycling.step levelsXkb) (freeFromStart 252) [0x20AC, 0x20AB]).input = some 255 := by
  have hx := levelsXkb_lawful
  rw [run_cons, run_cons, run_nil]
  have hfree₀ : unmappedKeys levelsXkb (freeFromStart 252).input = [255, 254, 253, 252] := by
    decide +kernel
  have hcount₀ : (freeFromStart 252).input.needFree 0 < MAX_MAPPINGS := by decide
  have htwo₀ : (freeFromStart 252).TwoAdded levelsXkb 0x20AC := by
    rw [TwoAdded, hfree₀]
    exact fun _ hfew => absurd hfew (by decide)
  have h₀ : (freeFromStart 252).Aged levelsXkb := aged_start _ _ _ _
  have hoff₀ := (h₀.removesOldest_iff hx hcount₀).mpr htwo₀
  have h₁ := h₀.step hx hcount₀ hoff₀
  have hone := h₀.count_step hx hcount₀ hoff₀ (by rw [hfree₀]; exact List.cons_ne_nil _ _)
  generalize hs₁ : Recycling.step levelsXkb (freeFromStart 252) 0x20AC = s₁ at h₁ hone ⊢
  have hfree₁ : unmappedKeys levelsXkb s₁.input = [254, 253, 252] := by
    rw [← hs₁]
    decide +kernel
  have hcount₁ : s₁.input.needFree 0 < MAX_MAPPINGS := by
    rw [hone]
    decide
  have htwo₁ : s₁.TwoAdded levelsXkb 0x20AB := by
    rw [TwoAdded, hfree₁]
    exact fun _ hfew => absurd hfew (by decide)
  have hoff₁ := (h₁.removesOldest_iff hx hcount₁).mpr htwo₁
  have h₂ := h₁.step hx hcount₁ hoff₁
  have htwo := h₁.count_step hx hcount₁ hoff₁ (by rw [hfree₁]; exact List.cons_ne_nil _ _)
  generalize hs₂ : Recycling.step levelsXkb s₁ 0x20AB = s₂ at h₂ htwo ⊢
  have hadded : s₂.added = [255, 254] := by
    rw [← hs₂, ← hs₁]
    decide +kernel
  have hfree₂ : unmappedKeys levelsXkb s₂.input = [253, 252] := by
    rw [← hs₂, ← hs₁]
    decide +kernel
  have hcount₂ : s₂.input.needFree 0 < MAX_MAPPINGS := by
    rw [htwo, hone]
    decide
  have htwo₂ : s₂.TwoAdded levelsXkb 0x20AD := by
    rw [TwoAdded, hadded]
    exact fun _ _ => Nat.le_refl 2
  refine ⟨(removes_oldest_iff hx (freeFrom 252) _ false _).mpr ⟨⟨htwo₀, hcount₀⟩, ?_⟩, ?_⟩
  · show Guarded _ _ (Recycling.step levelsXkb (freeFromStart 252) 0x20AC) _
    rw [hs₁]
    refine ⟨⟨htwo₁, hcount₁⟩, ?_⟩
    rw [hs₂]
    exact ⟨⟨htwo₂, hcount₂⟩, trivial⟩
  · obtain ⟨-, -, -, -, -, hremoved⟩ := h₂.mapping hx hcount₂ 0x20AD
      (by rw [hfree₂]; exact List.cons_ne_nil _ _)
    have hscarce : Scarce levelsXkb s₂.input := by
      refine ⟨?_, h₂.freeKeys⟩
      rw [hfree₂]
      decide
    rw [hremoved, if_pos hscarce, h₂.oldest_eq_head hx hcount₂ hadded]

/-- With two keys free the first call removes keycode 0, which is none. -/
theorem removes_no_key :
    removedKeycode levelsXkb (freeFromStart 254).input = some 0 ∧
      ¬Guarded (Recycling.step levelsXkb) (fun s keysym => s.RemovesOldest levelsXkb keysym)
        (freeFromStart 254) [0x20AC] := by
  have hfree : unmappedKeys levelsXkb (freeFromStart 254).input = [255, 254] := by decide +kernel
  have haged : (freeFromStart 254).Aged levelsXkb := aged_start _ _ _ _
  have hscarce : Scarce levelsXkb (freeFromStart 254).input := by
    refine ⟨?_, rfl⟩
    rw [hfree]
    decide
  have hremoved : removedKeycode levelsXkb (freeFromStart 254).input = some 0 := by
    obtain ⟨-, -, -, -, -, hremoved⟩ := haged.mapping levelsXkb_lawful (by decide) 0x20AC
      (by rw [hfree]; exact List.cons_ne_nil _ _)
    rw [hremoved, if_pos hscarce, haged.oldest_eq_zero (by decide) (by decide)]
  refine ⟨hremoved, fun h => ?_⟩
  exact absurd (h.1 0 hremoved).1 nofun

end Recycling

end KasmVNC.Unix
