import KasmVNC.Unix.InputXkb

/-!
# Fake modifiers

Before a key is pressed, Shift and the modifiers of level three are brought into the state the
key was chosen for, by pressing a key for them or by releasing all that are down; this is undone
when the key has been pressed. A way out is taken where no key is found, and for level three that
is after Shift has been changed.
-/

namespace KasmVNC.Unix

open KasmVNC.Lib KasmVNC.Rfb

/-- What a key event is for, as it is logged. -/
inductive Purpose
  | keycode
  | tempShift
  | tempLevelThree
deriving DecidableEq

structure KeyEvent where
  key : KeyCode
  down : Bool
  msg : Purpose
deriving DecidableEq

namespace KeyEvent

def Fake (e : KeyEvent) : Prop := e.msg ≠ .keycode

instance (e : KeyEvent) : Decidable e.Fake := inferInstanceAs (Decidable (e.msg ≠ .keycode))

def undo (e : KeyEvent) : KeyEvent := { e with down := !e.down }

theorem undo_undo (e : KeyEvent) : e.undo.undo = e := by
  simp [undo]

theorem undo_ne (e : KeyEvent) : e.undo ≠ e := by
  intro h
  have hdown := congrArg KeyEvent.down h
  simp [undo] at hdown

end KeyEvent

section Keys

variable {κ : Type} (xkb : Xkb κ)

def vncPressShift (kb : Keyboard κ) : KeyCode :=
  if kb.state &&& ShiftMask ≠ 0 then 0
  else
    ((keycodes xkb kb.keymap).find? fun key =>
      (setMods xkb kb.keymap key kb.state).any fun mask =>
        mask &&& ShiftMask = ShiftMask).getD 0

/-- The keys that are down and set one of some modifiers, or none if they are too many. -/
def keysSetting (kb : Keyboard κ) (mask : State) (maxKeys : ℕ) : List KeyCode :=
  let keys := (keycodes xkb kb.keymap).filter fun key =>
    kb.keyIsDown key &&
      (setMods xkb kb.keymap key kb.state).any fun keyMask => keyMask &&& mask ≠ 0
  if keys.length > maxKeys then [] else keys

def vncReleaseShift (kb : Keyboard κ) (maxKeys : ℕ) : List KeyCode :=
  if kb.state &&& ShiftMask = 0 then [] else keysSetting xkb kb ShiftMask maxKeys

def vncPressLevelThree (kb : Keyboard κ) : KeyCode :=
  let mask := vncGetLevelThreeMask xkb kb
  if mask = 0 then 0
  else if kb.state &&& mask ≠ 0 then 0
  else
    let keycode := levelThreeKey xkb kb.keymap kb.state
    if keycode = 0 then 0
    else if (setMods xkb kb.keymap keycode kb.state).isNone then 0 else keycode

def vncReleaseLevelThree (kb : Keyboard κ) (maxKeys : ℕ) : List KeyCode :=
  let mask := vncGetLevelThreeMask xkb kb
  if mask = 0 then []
  else if kb.state &&& mask = 0 then [] else keysSetting xkb kb mask maxKeys

end Keys

/-! ## The events -/

/-- Modifiers are faked by pressing a key or by releasing some, if there are any. -/
def fake (msg : Purpose) (mask state newState : State) (press : KeyCode)
    (release : List KeyCode) : Option (List KeyEvent) :=
  if state &&& mask = 0 ∧ newState &&& mask ≠ 0 then
    if press = 0 then none else some [⟨press, true, msg⟩]
  else if state &&& mask ≠ 0 ∧ newState &&& mask = 0 then
    if release = [] then none else some (release.map fun key => ⟨key, false, msg⟩)
  else some []

section Event

variable {κ : Type} (xkb : Xkb κ)

/-- Need a fake press or release of shift? -/
def fakeShift (kb : Keyboard κ) (newState : State) : Option (List KeyEvent) :=
  fake .tempShift ShiftMask kb.state newState (vncPressShift xkb kb) (vncReleaseShift xkb kb 8)

/-- The mask for level three, if we need a bigger state change than just shift. -/
def levelThreeMask (kb : Keyboard κ) (newState : State) : State :=
  if newState &&& ~~~ShiftMask ≠ kb.state &&& ~~~ShiftMask then vncGetLevelThreeMask xkb kb else 0

/-- Need a fake press or release of level three shift? -/
def fakeLevelThree (kb : Keyboard κ) (newState : State) : Option (List KeyEvent) :=
  fake .tempLevelThree (levelThreeMask xkb kb newState) kb.state newState
    (vncPressLevelThree xkb kb) (vncReleaseLevelThree xkb kb 8)

/-- Release events must match the press event. -/
def releaseKeysym (input : Input κ) (keysym : KeySym) : Input κ × List KeyEvent :=
  match (List.range 256).find? fun i => input.pressedKeys i = keysym with
  | some i =>
    ({ input with pressedKeys := Function.update input.pressedKeys i NoSymbol },
      [⟨i, false, .keycode⟩])
  | none => (input, [])

/-- Store the mapping so that we can do a proper release later. -/
def storeMapping (input : Input κ) (keycode : KeyCode) (keysym : KeySym) : Input κ :=
  { input with
    pressedKeys := fun i =>
      if i = keycode then keysym
      else if input.pressedKeys i = keysym then NoSymbol else input.pressedKeys i }

/-- The events that are put on the queue. -/
def vncKeysymKeyboardEvent (input : Input κ) (keysym : KeySym) (down : Bool) :
    Input κ × List KeyEvent :=
  if !down then releaseKeysym input keysym
  else
    match chooseKey xkb input keysym with
    | (input, none) => (input, [])
    | (input, some (keycode, newState)) =>
      match fakeShift xkb input.keyboard newState with
      | none => (input, [])
      | some shift =>
        match fakeLevelThree xkb input.keyboard newState with
        | none => (input, shift)
        | some levelThree =>
          (storeMapping input keycode keysym,
            shift ++ levelThree ++ [⟨keycode, true, .keycode⟩] ++
              levelThree.map KeyEvent.undo ++ shift.map KeyEvent.undo)

end Event

/-! ## What is undone -/

/-- Fake events stand around others, and are undone behind them. -/
inductive Undone : List KeyEvent → Prop
  | plain {es : List KeyEvent} (h : ∀ e ∈ es, ¬e.Fake) : Undone es
  | around {es : List KeyEvent} (fakes : List KeyEvent) (hfakes : ∀ e ∈ fakes, e.Fake)
      (h : Undone es) : Undone (fakes ++ es ++ fakes.map KeyEvent.undo)

theorem count_map_undo (e : KeyEvent) (es : List KeyEvent) :
    (es.map KeyEvent.undo).count e = es.count e.undo := by
  induction es with
  | nil => rfl
  | cons f es ih =>
    have hiff : f.undo = e ↔ f = e.undo :=
      ⟨fun h => by rw [← h, KeyEvent.undo_undo], fun h => by rw [h, KeyEvent.undo_undo]⟩
    rw [List.map_cons, List.count_cons, List.count_cons, ih]
    simp only [beq_iff_eq, hiff]

/-- What is undone has happened as often as it has been undone. -/
theorem Undone.count_eq {es : List KeyEvent} (h : Undone es) {e : KeyEvent} (he : e.Fake) :
    es.count e = es.count e.undo := by
  induction h with
  | plain h =>
    rw [List.count_eq_zero.mpr fun hmem => h e hmem he,
      List.count_eq_zero.mpr fun hmem => h e.undo hmem he]
  | around fakes hfakes h ih =>
    simp only [List.count_append, count_map_undo, KeyEvent.undo_undo, ih]
    omega

/-- Events of one direction only are not undone. -/
theorem not_undone {es : List KeyEvent} {e : KeyEvent} (he : e ∈ es) (hfake : e.Fake)
    (hundo : e.undo ∉ es) : ¬Undone es := by
  intro h
  have hcount := h.count_eq hfake
  rw [List.count_eq_zero.mpr hundo] at hcount
  exact List.count_eq_zero.mp hcount he

/-! ## The state a key is chosen for -/

section Choice

variable {κ : Type} {xkb : Xkb κ} {kb : Keyboard κ} {newState : State}

/-- Apart from Shift a state that is tried has the modifiers of level three as they are, or none
of them if there was one, or all of them if there was none. -/
structure Tried (xkb : Xkb κ) (kb : Keyboard κ) (newState : State) : Prop where
  rest : newState &&& ~~~ShiftMask = kb.state &&& ~~~ShiftMask ∨
    (kb.state &&& vncGetLevelThreeMask xkb kb ≠ 0 ∧ newState &&& ~~~ShiftMask =
      kb.state &&& ~~~vncGetLevelThreeMask xkb kb &&& ~~~ShiftMask) ∨
    (kb.state &&& vncGetLevelThreeMask xkb kb = 0 ∧ newState &&& ~~~ShiftMask =
      (kb.state ||| vncGetLevelThreeMask xkb kb) &&& ~~~ShiftMask ∧
      newState &&& vncGetLevelThreeMask xkb kb = vncGetLevelThreeMask xkb kb)

theorem toggled_clear {m state : State} (h : state &&& m ≠ 0) :
    toggled m state = state &&& ~~~m := by
  rw [toggled, if_pos h]
  exact BitVec.or_zero

theorem toggled_set {m state : State} (h : state &&& m = 0) :
    toggled m state = state &&& ~~~m ||| m := by
  rw [toggled, if_neg (not_not.mpr h)]

theorem toggled_rest (m state : State) : toggled m state &&& ~~~m = state &&& ~~~m := by
  unfold toggled
  split <;> grind

theorem tried_of_mem (h : newState ∈ newStates xkb kb kb.state) : Tried xkb kb newState := by
  constructor
  generalize hm : vncGetLevelThreeMask xkb kb = m
  simp only [newStates, hm, List.mem_append, List.mem_cons, List.not_mem_nil, or_false] at h
  rcases h with (rfl | rfl) | h
  · exact .inl rfl
  · exact .inl (toggled_rest ShiftMask kb.state)
  · right
    split at h
    · cases h
    · simp only [List.mem_cons, List.not_mem_nil, or_false] at h
      -- the last two states differ in Shift only
      by_cases hset : kb.state &&& m = 0
      · refine .inr ⟨hset, ?_⟩
        rcases h with rfl | rfl
        · rw [toggled_set hset]
          constructor <;> grind
        · rw [if_neg (not_not.mpr hset)]
          constructor <;> split <;> grind
      · refine .inl ⟨hset, ?_⟩
        rcases h with rfl | rfl
        · rw [toggled_clear hset]
        · rw [if_pos hset]
          split <;> grind

/-- Shift is added for Tab. -/
theorem Tried.shiftTab (h : Tried xkb kb newState) (keysym : KeySym) :
    Tried xkb kb (shiftTab kb keysym newState) := by
  unfold Unix.shiftTab
  split
  · constructor
    have hrest : (newState ||| ShiftMask) &&& ~~~ShiftMask = newState &&& ~~~ShiftMask := by grind
    rcases h.rest with hsame | ⟨hset, hclear⟩ | ⟨hset, hput, hall⟩
    · exact .inl (hrest.trans hsame)
    · exact .inr (.inl ⟨hset, hrest.trans hclear⟩)
    · refine .inr (.inr ⟨hset, hrest.trans hput, ?_⟩)
      grind
  · exact h

theorem tried_of_keysymToKeycode {keysym : KeySym} {found : KeyCode × State}
    (h : vncKeysymToKeycode xkb kb keysym = some found) : Tried xkb kb found.2 := by
  obtain ⟨newState, hmem, hfound⟩ := List.exists_of_findSome?_eq_some h
  simp only at hfound
  split at hfound
  · cases hfound
  · obtain rfl := Option.some.inj hfound
    exact tried_of_mem hmem

/-- A key that is chosen is one that was found for some keysym, but for the Shift of Tab. -/
theorem found_of_chooseKey {P : Keyboard κ → KeyCode × State → Prop}
    (hfound : ∀ kb keysym found, vncKeysymToKeycode xkb kb keysym = some found → P kb found)
    (htab : ∀ kb keysym keycode newState, P kb (keycode, newState) →
      P kb (keycode, shiftTab kb keysym newState))
    {input input' : Input κ} {keysym : KeySym} {found : KeyCode × State}
    (h : chooseKey xkb input keysym = (input', some found)) : P input'.keyboard found := by
  have havoid : ∀ (input : Input κ) (found : KeyCode × State), P input.keyboard found →
      P input.keyboard (avoidShift xkb input keysym found) := by
    intro input found hold
    unfold avoidShift
    dsimp only
    split
    · cases hother : (alternatives keysym).findSome? fun altsym =>
          (vncKeysymToKeycode xkb input.keyboard altsym).filter fun other =>
            !(changesShift input.keyboard.state other.2 &&
              vncIsAffectedByNumLock xkb input.keyboard other.1) with
      | none => exact hold
      | some other =>
        obtain ⟨altsym, -, hfilter⟩ := List.exists_of_findSome?_eq_some hother
        exact hfound _ _ _ (Option.eq_some_of_filter_eq_some hfilter)
    · exact hold
  have hchoose : ∀ (input : Input κ) (found : KeyCode × State), P input.keyboard found →
      P input.keyboard ((avoidShift xkb input keysym found).1,
        shiftTab input.keyboard keysym (avoidShift xkb input keysym found).2) :=
    fun input found hold => htab _ _ _ _ (havoid input found hold)
  unfold chooseKey at h
  cases hfind : findKey xkb input.keyboard keysym with
  | some found =>
    simp only [hfind, Prod.mk.injEq, Option.some.injEq] at h
    obtain ⟨rfl, rfl⟩ := h
    obtain ⟨altsym, -, hkey⟩ := List.exists_of_findSome?_eq_some hfind
    exact hchoose _ found (hfound _ _ _ hkey)
  | none =>
    simp only [hfind] at h
    split at h
    · cases h
    · simp only [Prod.mk.injEq] at h
      obtain ⟨rfl, h⟩ := h
      obtain ⟨found, hkey, h⟩ := Option.bind_eq_some_iff.mp h
      simp only [Option.some.injEq] at h
      obtain rfl := h
      exact hchoose _ found (hfound _ _ _ hkey)

/-- The state that is chosen is one of those that are tried, but for the Shift of Tab. -/
theorem tried_of_chooseKey {input input' : Input κ} {keysym : KeySym} {keycode : KeyCode}
    (h : chooseKey xkb input keysym = (input', some (keycode, newState))) :
    Tried xkb input'.keyboard newState :=
  found_of_chooseKey (P := fun kb found => Tried xkb kb found.2)
    (fun _ _ _ hfound => tried_of_keysymToKeycode hfound)
    (fun _ keysym _ _ htried => htried.shiftTab keysym) h

end Choice

/-! ## The state a key is pressed in -/

section Follow

variable {κ : Type} (xkb : Xkb κ)

/-- Shift and level three -/
def modifiers (kb : Keyboard κ) : State := ShiftMask ||| vncGetLevelThreeMask xkb kb

/-- Two states are the same in Shift and in level three. -/
def Agree (kb : Keyboard κ) (a b : State) : Prop :=
  a &&& modifiers xkb kb = b &&& modifiers xkb kb

/-- Pressing the key for some modifiers puts them in, and releasing all keys for them takes them
away. -/
structure Controls (kb : Keyboard κ) (after : List KeyEvent → State) (msg : Purpose) (mask : State)
    (press : KeyCode) (release : List KeyCode) : Prop where
  press : press ≠ 0 → ∀ es, Agree xkb kb (after (es ++ [⟨press, true, msg⟩])) (after es ||| mask)
  release : release ≠ [] → ∀ es,
    Agree xkb kb (after (es ++ release.map fun key => ⟨key, false, msg⟩)) (after es &&& ~~~mask)

/-- What the code relies on in the server, which gives the state after some key events: the keys
that are found for Shift change Shift, and those that are found for level three change that. -/
structure Follows (kb : Keyboard κ) (after : List KeyEvent → State) : Prop where
  start : after [] = kb.state
  shift : Controls xkb kb after .tempShift ShiftMask (vncPressShift xkb kb)
    (vncReleaseShift xkb kb 8)
  levelThree : Controls xkb kb after .tempLevelThree (vncGetLevelThreeMask xkb kb)
    (vncPressLevelThree xkb kb) (vncReleaseLevelThree xkb kb 8)

/-- What is promised of a key press: every fake event is undone, and the key is pressed in the
state it has been chosen for. -/
structure Restores (after : List KeyEvent → State) (input : Input κ) (keysym : KeySym) :
    Prop where
  undone : Undone (vncKeysymKeyboardEvent xkb input keysym true).2
  state : ∀ input' keycode newState,
    chooseKey xkb input keysym = (input', some (keycode, newState)) → ∀ before rest,
      (vncKeysymKeyboardEvent xkb input keysym true).2 =
        before ++ ⟨keycode, true, .keycode⟩ :: rest →
      Agree xkb input'.keyboard (after before) newState

/-- More than Shift is to change, but of level three there is something before and afterwards. -/
def Mixed (kb : Keyboard κ) (newState : State) : Prop :=
  newState &&& ~~~ShiftMask ≠ kb.state &&& ~~~ShiftMask ∧
    kb.state &&& vncGetLevelThreeMask xkb kb ≠ 0 ∧ newState &&& vncGetLevelThreeMask xkb kb ≠ 0

/-- Shift is not faked where no key is found for level three, and level three is not mixed. -/
def KeysFound (input : Input κ) (keysym : KeySym) : Prop :=
  ∀ input' keycode newState,
    chooseKey xkb input keysym = (input', some (keycode, newState)) →
      ∀ shift, fakeShift xkb input'.keyboard newState = some shift →
        (fakeLevelThree xkb input'.keyboard newState = none → shift = []) ∧
          ¬Mixed xkb input'.keyboard newState

variable {xkb} {kb : Keyboard κ} {newState : State}

/-- What a fake makes of a state. -/
def faked (mask state newState after : State) : State :=
  if state &&& mask = 0 ∧ newState &&& mask ≠ 0 then after ||| mask
  else if state &&& mask ≠ 0 ∧ newState &&& mask = 0 then after &&& ~~~mask
  else after

theorem Agree.or {a b : State} (h : Agree xkb kb a b) (mask : State) :
    Agree xkb kb (a ||| mask) (b ||| mask) := by
  unfold Agree at h ⊢
  rw [BitVec.and_or_distrib_right, h, BitVec.and_or_distrib_right]

theorem Agree.and {a b : State} (h : Agree xkb kb a b) (mask : State) :
    Agree xkb kb (a &&& mask) (b &&& mask) := by
  unfold Agree at h ⊢
  rw [BitVec.and_assoc, BitVec.and_comm mask, ← BitVec.and_assoc, h, BitVec.and_assoc,
    BitVec.and_comm _ mask, ← BitVec.and_assoc]

theorem Agree.faked {a b : State} (h : Agree xkb kb a b) (mask state newState : State) :
    Agree xkb kb (faked mask state newState a) (faked mask state newState b) := by
  unfold Unix.faked
  split
  · exact h.or mask
  · split
    · exact h.and _
    · exact h

/-- The events of a fake do what they are for. -/
theorem Controls.faked {after : List KeyEvent → State} {msg : Purpose} {mask state : State}
    {press : KeyCode} {release : List KeyCode} (h : Controls xkb kb after msg mask press release)
    {fakes : List KeyEvent} (hfakes : fake msg mask state newState press release = some fakes)
    (es : List KeyEvent) :
    Agree xkb kb (after (es ++ fakes)) (faked mask state newState (after es)) := by
  unfold fake at hfakes
  unfold Unix.faked
  split at hfakes
  · next hput =>
      rw [if_pos hput]
      split at hfakes
      · cases hfakes
      · next hpress =>
          obtain rfl := Option.some.inj hfakes
          exact h.press hpress es
  · next hput =>
      rw [if_neg hput]
      split at hfakes
      · next htake =>
          rw [if_pos htake]
          split at hfakes
          · cases hfakes
          · next hrelease =>
              obtain rfl := Option.some.inj hfakes
              exact h.release hrelease es
      · next htake =>
          rw [if_neg htake]
          obtain rfl := Option.some.inj hfakes
          rw [List.append_nil]
          rfl

theorem faked_zero (state newState after : State) : faked 0 state newState after = after := by
  simp [faked]

theorem fake_zero (msg : Purpose) (state newState : State) (press : KeyCode)
    (release : List KeyCode) : fake msg 0 state newState press release = some [] := by
  simp [fake]

/-- Shift is one bit. -/
theorem and_shift (state : State) : state &&& ShiftMask = 0 ∨ state &&& ShiftMask = ShiftMask := by
  cases hbit : state[0] with
  | true =>
    right
    ext i hi
    simp only [BitVec.getElem_and]
    grind
  | false =>
    left
    ext i hi
    simp only [BitVec.getElem_and]
    grind

theorem and_not_or_and (state mask : State) : (state &&& ~~~mask) ||| (state &&& mask) = state := by
  grind

theorem and_not_or (state mask : State) : (state &&& ~~~mask) ||| mask = state ||| mask := by
  grind

/-- Shift comes from the new state, whatever it has been. -/
theorem faked_shift (state newState : State) : faked ShiftMask state newState state =
    (state &&& ~~~ShiftMask) ||| (newState &&& ShiftMask) := by
  have hne : ShiftMask ≠ 0 := by decide
  unfold faked
  rcases and_shift state with hstate | hstate <;> rcases and_shift newState with hnew | hnew <;>
    rw [hstate, hnew]
  · rw [if_neg fun h => h.2 rfl, if_neg fun h => h.1 rfl, ← hstate, and_not_or_and]
  · rw [if_pos ⟨rfl, hne⟩, and_not_or]
  · rw [if_neg fun h => h.2 rfl, if_pos ⟨hne, rfl⟩]
    exact BitVec.or_zero.symm
  · rw [if_neg fun h => hne h.1, if_neg fun h => hne h.2]
    have hsplit := and_not_or_and state ShiftMask
    rw [hstate] at hsplit
    exact hsplit.symm

/-- The bits of two equal states. -/
theorem bit_eq {a b : State} (h : a = b) (i : ℕ) (hi : i < 32) : a[i] = b[i] :=
  congrArg (fun x : State => x[i]) h

/-- Together the fakes make the new state. -/
theorem faked_eq (ht : Tried xkb kb newState) (hmixed : ¬Mixed xkb kb newState) :
    faked (levelThreeMask xkb kb newState) kb.state newState
      (faked ShiftMask kb.state newState kb.state) = newState := by
  rw [faked_shift]
  by_cases hsame : newState &&& ~~~ShiftMask = kb.state &&& ~~~ShiftMask
  · rw [levelThreeMask, if_neg (not_not.mpr hsame), faked_zero, ← hsame, and_not_or_and]
  · rw [levelThreeMask, if_pos hsame]
    rcases ht.rest with hrest | ⟨hset, hclear⟩ | ⟨hset, hput, hall⟩
    · exact absurd hrest hsame
    · -- what there was of level three is taken away
      have hnone : newState &&& vncGetLevelThreeMask xkb kb = 0 := by
        by_contra hsome
        exact hmixed ⟨hsame, hset, hsome⟩
      unfold faked
      rw [if_neg fun h => hset h.1, if_pos ⟨hset, hnone⟩]
      ext i hi
      have hclear := bit_eq hclear i hi
      have hnone := bit_eq hnone i hi
      simp only [BitVec.getElem_and, BitVec.getElem_or, BitVec.getElem_not] at hclear hnone ⊢
      grind
    · -- all of level three is put in
      have hsome : newState &&& vncGetLevelThreeMask xkb kb ≠ 0 := by
        rw [hall]
        intro hzero
        rw [hzero] at hput
        exact hsame (hput.trans (congrArg (· &&& ~~~ShiftMask) BitVec.or_zero))
      unfold faked
      rw [if_pos ⟨hset, hsome⟩]
      ext i hi
      have hput := bit_eq hput i hi
      have hall := bit_eq hall i hi
      simp only [BitVec.getElem_and, BitVec.getElem_or, BitVec.getElem_not] at hput hall ⊢
      grind

/-- Where level three is mixed the fakes do not make the new state. -/
theorem not_agree_of_mixed (ht : Tried xkb kb newState) (hmixed : Mixed xkb kb newState) :
    ¬Agree xkb kb (faked ShiftMask kb.state newState kb.state) newState := by
  obtain ⟨hdiffers, hset, -⟩ := hmixed
  intro hagree
  rw [faked_shift] at hagree
  unfold Agree modifiers at hagree
  rcases ht.rest with hrest | ⟨-, hclear⟩ | ⟨hnone, -⟩
  · exact hdiffers hrest
  · refine hdiffers ?_
    ext i hi
    have hagree := bit_eq hagree i hi
    have hclear := bit_eq hclear i hi
    simp only [BitVec.getElem_and, BitVec.getElem_or, BitVec.getElem_not] at hagree hclear ⊢
    grind
  · exact hset hnone

/-- There is nothing to fake for level three where it is mixed. -/
theorem fakeLevelThree_of_mixed (hmixed : Mixed xkb kb newState) :
    fakeLevelThree xkb kb newState = some [] := by
  obtain ⟨hdiffers, hset, hsome⟩ := hmixed
  unfold fakeLevelThree levelThreeMask fake
  rw [if_pos hdiffers, if_neg fun h => hset h.1, if_neg fun h => hsome h.2]

theorem mem_fake {msg : Purpose} {mask state : State} {press : KeyCode} {release : List KeyCode}
    {fakes : List KeyEvent} (hfakes : fake msg mask state newState press release = some fakes) :
    (∀ e ∈ fakes, e.msg = msg) ∧ ∀ e ∈ fakes, e.undo ∉ fakes := by
  unfold fake at hfakes
  split at hfakes
  · split at hfakes
    · cases hfakes
    · obtain rfl := Option.some.inj hfakes
      constructor
      · intro e he
        rw [List.mem_singleton.mp he]
      · intro e he hundo
        rw [List.mem_singleton] at he hundo
        exact e.undo_ne (hundo.trans he.symm)
  · split at hfakes
    · split at hfakes
      · cases hfakes
      · obtain rfl := Option.some.inj hfakes
        constructor
        · intro e he
          obtain ⟨key, -, rfl⟩ := List.mem_map.mp he
          rfl
        · intro e he hundo
          obtain ⟨key, -, rfl⟩ := List.mem_map.mp he
          obtain ⟨key', -, hkey⟩ := List.mem_map.mp hundo
          exact Bool.false_ne_true (congrArg KeyEvent.down hkey)
    · obtain rfl := Option.some.inj hfakes
      exact ⟨nofun, nofun⟩

/-- An event that is not fake can only be the one between the fakes. -/
theorem eq_of_append_eq {fakes undone before rest : List KeyEvent} {e : KeyEvent}
    (hfakes : ∀ f ∈ fakes, f.Fake) (hundone : ∀ f ∈ undone, f.Fake) (he : ¬e.Fake)
    (h : fakes ++ e :: undone = before ++ e :: rest) : before = fakes := by
  rcases List.append_eq_append_iff.mp h with ⟨c, hc, hrest⟩ | ⟨c, hc, hrest⟩
  · cases c with
    | nil => rw [hc, List.append_nil]
    | cons f c =>
      obtain ⟨rfl, hundo⟩ := List.cons.inj hrest
      exact absurd (hundone e (by rw [hundo]; simp)) he
  · cases c with
    | nil => rw [hc, List.append_nil]
    | cons f c =>
      obtain ⟨rfl, -⟩ := List.cons.inj hrest
      exact absurd (hfakes e (by rw [hc]; simp)) he

theorem fake_of_shift {shift : List KeyEvent} (h : fakeShift xkb kb newState = some shift) :
    ∀ e ∈ shift, e.Fake := by
  intro e he
  rw [KeyEvent.Fake, (mem_fake h).1 e he]
  decide

theorem fake_of_levelThree {levelThree : List KeyEvent}
    (h : fakeLevelThree xkb kb newState = some levelThree) : ∀ e ∈ levelThree, e.Fake := by
  intro e he
  rw [KeyEvent.Fake, (mem_fake h).1 e he]
  decide

theorem fake_undo {fakes : List KeyEvent} (h : ∀ e ∈ fakes, e.Fake) :
    ∀ e ∈ fakes.map KeyEvent.undo, e.Fake := by
  intro e he
  obtain ⟨f, hf, rfl⟩ := List.mem_map.mp he
  exact h f hf

section Press

variable {input input' : Input κ} {keysym : KeySym} {keycode : KeyCode}

/-- The events of a key press, where a key has been chosen. -/
theorem events_eq (h : chooseKey xkb input keysym = (input', some (keycode, newState))) :
    (vncKeysymKeyboardEvent xkb input keysym true).2 =
      match fakeShift xkb input'.keyboard newState,
        fakeLevelThree xkb input'.keyboard newState with
      | none, _ => []
      | some shift, none => shift
      | some shift, some levelThree =>
        shift ++ (levelThree ++ [⟨keycode, true, .keycode⟩] ++
          levelThree.map KeyEvent.undo) ++ shift.map KeyEvent.undo := by
  unfold vncKeysymKeyboardEvent
  rw [h, if_neg (by decide)]
  dsimp only
  cases fakeShift xkb input'.keyboard newState with
  | none => rfl
  | some shift =>
    cases fakeLevelThree xkb input'.keyboard newState with
    | none => rfl
    | some levelThree => simp

theorem events_none (h : chooseKey xkb input keysym = (input', none)) :
    (vncKeysymKeyboardEvent xkb input keysym true).2 = [] := by
  unfold vncKeysymKeyboardEvent
  rw [h]
  rfl

/-- Fakes that are all undone around the key. -/
theorem undone_events {shift levelThree : List KeyEvent} (keycode : KeyCode)
    (hshift : ∀ e ∈ shift, e.Fake) (hlevelThree : ∀ e ∈ levelThree, e.Fake) :
    Undone (shift ++ (levelThree ++ [⟨keycode, true, .keycode⟩] ++
      levelThree.map KeyEvent.undo) ++ shift.map KeyEvent.undo) := by
  refine Undone.around shift hshift (Undone.around levelThree hlevelThree (Undone.plain ?_))
  intro e he
  rw [List.mem_singleton.mp he]
  exact not_not.mpr rfl

/-- The state that the fakes lead to. -/
theorem Follows.agree {after : List KeyEvent → State} (hafter : Follows xkb kb after)
    {shift levelThree : List KeyEvent} (hshift : fakeShift xkb kb newState = some shift)
    (hlevelThree : fakeLevelThree xkb kb newState = some levelThree) :
    Agree xkb kb (after (shift ++ levelThree))
      (faked (levelThreeMask xkb kb newState) kb.state newState
        (faked ShiftMask kb.state newState kb.state)) := by
  have hfirst := hafter.shift.faked hshift []
  rw [List.nil_append, hafter.start] at hfirst
  by_cases hdiffers : newState &&& ~~~ShiftMask ≠ kb.state &&& ~~~ShiftMask
  · unfold fakeLevelThree levelThreeMask at *
    rw [if_pos hdiffers] at hlevelThree ⊢
    exact (hafter.levelThree.faked hlevelThree shift).trans (hfirst.faked _ _ _)
  · unfold fakeLevelThree levelThreeMask at *
    rw [if_neg hdiffers, fake_zero] at hlevelThree
    obtain rfl := Option.some.inj hlevelThree
    rw [if_neg hdiffers, List.append_nil, faked_zero]
    exact hfirst

end Press

end Follow

/-! ### A keyboard with AltGr -/

/-- Keycode 24 has q, Q, @ and Ω, 50 is Shift and 108 is AltGr, which may be the compose key
with Shift. -/
def altGrKeyboard : Xkb Bool where
  minKeyCode _ := 24
  maxKeyCode _ := 108
  translateKeyCode multi key state :=
    let shift : Bool := state &&& ShiftMask ≠ 0
    let levelThree : Bool := state &&& 0x80 ≠ 0
    if key = 24 then
      (0x81, if levelThree then if shift then 0x7D9 else 0x40 else if shift then 0x51 else 0x71)
    else if key = 50 then (0, XK_Shift_L)
    else if key = 108 then (1, if shift && multi then 0xFF20 else XK_ISO_Level3_Shift)
    else (0, NoSymbol)
  convertCase keysym := (keysym, keysym)
  keyAction multi key state :=
    if key = 50 then some ⟨.setMods, false, 1⟩
    else if key = 108 ∧ ¬(multi ∧ state &&& ShiftMask ≠ 0) then some ⟨.setMods, false, 0x80⟩
    else none
  modmap _ _ := 0
  typeMask _ _ _ := 0
  keyNumGroups _ _ := 1
  changeKey multi _ _ := multi
  removeKeycode multi _ := multi

def altGrInput (multi : Bool) (state : State) (keyIsDown : KeyCode → Bool) : Input Bool where
  keyboard := ⟨multi, state, keyIsDown⟩
  pressedKeys _ := NoSymbol
  needFree _ := 0
  freeKeys := false
  avoidShiftNumLock := false

/-- The modifiers of the keys that have been pressed and not released. -/
def altGrAfter (state : State) (es : List KeyEvent) : State :=
  es.foldl (fun state e =>
    let mask : State := if e.key = 50 then ShiftMask else if e.key = 108 then 0x80 else 0
    if e.down then state ||| mask else state &&& ~~~mask) state

theorem altGrAfter_append (state : State) (es fs : List KeyEvent) :
    altGrAfter state (es ++ fs) = altGrAfter (altGrAfter state es) fs :=
  List.foldl_append

/-- With no key down there is nothing to release. -/
theorem altGr_follows : Follows altGrKeyboard ⟨false, 0, fun _ => false⟩ (altGrAfter 0) := by
  refine ⟨rfl, ⟨fun _ es => ?_, fun h => ?_⟩, ⟨fun _ es => ?_, fun h => ?_⟩⟩
  · have hkey : vncPressShift altGrKeyboard ⟨false, 0, fun _ => false⟩ = 50 := by decide
    rw [hkey, altGrAfter_append]
    rfl
  · exact absurd rfl h
  · have hkey : vncPressLevelThree altGrKeyboard ⟨false, 0, fun _ => false⟩ = 108 := by
      decide
    have hmask : vncGetLevelThreeMask altGrKeyboard ⟨false, 0, fun _ => false⟩ = 0x80 := by
      decide
    rw [hkey, hmask, altGrAfter_append]
    rfl
  · exact absurd (by decide) h

/-- Level three has no key while Shift is down. -/
theorem altGr_follows_shift :
    Follows altGrKeyboard ⟨true, 1, (· = 50)⟩ (altGrAfter 1) := by
  refine ⟨rfl, ⟨fun h => ?_, fun _ es => ?_⟩, ⟨fun h => ?_, fun h => ?_⟩⟩
  · exact absurd (by decide) h
  · have hkeys : vncReleaseShift altGrKeyboard ⟨true, 1, (· = 50)⟩ 8 = [50] := by decide
    rw [hkeys, altGrAfter_append]
    rfl
  · exact absurd (by decide) h
  · exact absurd (by decide) h

end KasmVNC.Unix
