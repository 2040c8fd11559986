import KasmVNC.Rfb.KeyEvents

/-!
# Keys for keysyms

A keysym that comes without a keycode has to be turned into one. The keymap is searched for a key
that gives it in the present state of the modifiers, or else with Shift changed, with level three
changed or with both. If there is none a similar keysym may do, and at last the keysym is put on
a key that is free.
-/

namespace KasmVNC.Unix

open KasmVNC.Rfb

abbrev KeySym := UInt32

abbrev KeyCode := ℕ

/-- Modifiers in the lower byte, groups above them -/
abbrev State := BitVec 32

abbrev NoSymbol : KeySym := 0
abbrev XK_ISO_Level3_Shift : KeySym := 0xFE03
abbrev XK_Mode_switch : KeySym := 0xFF7E

abbrev ShiftMask : State := 1
abbrev LockMask : State := 2

abbrev UINT_MAX : BitVec 32 := BitVec.allOnes 32
abbrev MAX_MAPPINGS : BitVec 32 := UINT_MAX - 1

inductive ActionType
  | setMods
  | lockMods
  | other
deriving DecidableEq

/-- `XkbAction` -/
structure Action where
  type : ActionType
  /-- `XkbSA_UseModMapMods` is among the flags -/
  useModMapMods : Bool
  mask : BitVec 8

/-- What the X server says about a keymap, and how it changes one. -/
structure Xkb (κ : Type) where
  minKeyCode : κ → KeyCode
  maxKeyCode : κ → KeyCode
  /-- `XkbTranslateKeyCode`: the modifiers that may be consumed, and the keysym -/
  translateKeyCode : κ → KeyCode → State → State × KeySym
  /-- `XkbConvertCase`: the keysym in lower case and in upper case -/
  convertCase : KeySym → KeySym × KeySym
  /-- `XkbKeyActionPtr` -/
  keyAction : κ → KeyCode → State → Option Action
  modmap : κ → KeyCode → BitVec 8
  /-- The modifiers of the type that the key has in its effective group -/
  typeMask : κ → KeyCode → State → BitVec 8
  keyNumGroups : κ → KeyCode → ℕ
  /-- A key of one group gets its levels. -/
  changeKey : κ → KeyCode → List KeySym → κ
  removeKeycode : κ → KeyCode → κ

/-- The keyboard, when all earlier events have been processed. -/
structure Keyboard (κ : Type) where
  keymap : κ
  state : State
  /-- `key_is_down` -/
  keyIsDown : KeyCode → Bool

/-- The static variables of `Input.c`. -/
structure Input (κ : Type) where
  keyboard : Keyboard κ
  pressedKeys : KeyCode → KeySym
  needFree : KeyCode → BitVec 32
  freeKeys : Bool
  avoidShiftNumLock : Bool

/-- The modifiers in `m` changed: taken away if one of them is there, else put in. -/
def toggled (m state : State) : State :=
  (state &&& ~~~m) ||| (if state &&& m ≠ 0 then 0 else m)

/-- Pairs of keysyms that have the same meaning. -/
def altKeysym : List (KeySym × KeySym) :=
  [(XK_Shift_L, XK_Shift_R),
    -- Control, Meta, Alt, Super and Hyper, left and right
    (0xFFE3, 0xFFE4), (0xFFE7, 0xFFE8), (0xFFE9, 0xFFEA), (0xFFEB, 0xFFEC), (0xFFED, 0xFFEE),
    -- the keypad: Space, Tab, Enter, F1 to F4
    (0xFF80, 0x20), (0xFF89, XK_Tab), (0xFF8D, 0xFF0D), (0xFF91, 0xFFBE), (0xFF92, 0xFFBF),
    (0xFF93, 0xFFC0), (0xFF94, 0xFFC1),
    -- Home, Left, Up, Right, Down, Page_Up, Page_Down, End, Begin, Insert, Delete
    (XK_KP_Home, 0xFF50), (0xFF96, 0xFF51), (0xFF97, 0xFF52), (0xFF98, 0xFF53), (0xFF99, 0xFF54),
    (0xFF9A, 0xFF55), (0xFF9B, 0xFF56), (0xFF9C, 0xFF57), (0xFF9D, 0xFF58), (0xFF9E, 0xFF63),
    (XK_KP_Delete, 0xFFFF),
    -- equal, asterisk, plus, comma, minus, period, slash
    (0xFFBD, 0x3D), (0xFFAA, 0x2A), (0xFFAB, 0x2B), (XK_KP_Separator, 0x2C), (0xFFAD, 0x2D),
    (XK_KP_Decimal, 0x2E), (0xFFAF, 0x2F),
    -- the digits
    (XK_KP_0, 0x30), (0xFFB1, 0x31), (0xFFB2, 0x32), (0xFFB3, 0x33), (0xFFB4, 0x34),
    (0xFFB5, 0x35), (0xFFB6, 0x36), (0xFFB7, 0x37), (0xFFB8, 0x38), (XK_KP_9, 0x39),
    (XK_ISO_Level3_Shift, XK_Mode_switch)]

/-- The keysyms that may do in place of one. -/
def alternatives (keysym : KeySym) : List KeySym :=
  altKeysym.filterMap fun (a, b) =>
    if a = keysym then some b else if b = keysym then some a else none

variable {κ : Type} (xkb : Xkb κ)

/-- From `min_key_code` to `max_key_code` -/
def keycodes (keymap : κ) : List KeyCode :=
  List.range' (xkb.minKeyCode keymap) (xkb.maxKeyCode keymap + 1 - xkb.minKeyCode keymap)

/-- The modifiers that an action is about. -/
def actionMods (keymap : κ) (key : KeyCode) (act : Action) : State :=
  (if act.useModMapMods then xkb.modmap keymap key else act.mask).setWidth 32

/-- The modifiers that the key sets, if that is what it is for. -/
def setMods (keymap : κ) (key : KeyCode) (state : State) : Option State :=
  match xkb.keyAction keymap key state with
  | none => none
  | some act => if act.type = .setMods then some (actionMods xkb keymap key act) else none

/-- The key gives the keysym in a state. Every modifier the key could consume is taken for
consumed; if Lock is left the keysym is the one in upper case. -/
def givesKeysym (keymap : κ) (keysym : KeySym) (state : State) (key : KeyCode) : Bool :=
  let (stateOut, ks) := xkb.translateKeyCode keymap key state
  if ks = NoSymbol then false
  else
    let ks := if state &&& ~~~stateOut &&& LockMask ≠ 0 then (xkb.convertCase ks).2 else ks
    ks = keysym

/-- `vncKeysymToKeycode` without a `new_state`. 0 is no key. -/
def keysymToKeycode (keymap : κ) (keysym : KeySym) (state : State) : KeyCode :=
  ((keycodes xkb keymap).find? (givesKeysym xkb keymap keysym state)).getD 0

/-- The key for level three in a state. -/
def levelThreeKey (keymap : κ) (state : State) : KeyCode :=
  let keycode := keysymToKeycode xkb keymap XK_ISO_Level3_Shift state
  if keycode = 0 then keysymToKeycode xkb keymap XK_Mode_switch state else keycode

/-- Group state is still important. -/
def groupState (kb : Keyboard κ) : State := kb.state &&& ~~~0xFF

def vncGetLevelThreeMask (kb : Keyboard κ) : State :=
  let keycode := levelThreeKey xkb kb.keymap (groupState kb)
  if keycode = 0 then 0 else (setMods xkb kb.keymap keycode (groupState kb)).getD 0

/-- The states that are tried, one after the other. -/
def newStates (kb : Keyboard κ) (state : State) : List State :=
  let mask := vncGetLevelThreeMask xkb kb
  [state, toggled ShiftMask state] ++
    if mask = 0 then []
    else
      [toggled mask state,
        (state &&& ~~~(ShiftMask ||| mask)) |||
          (if state &&& ShiftMask ≠ 0 then 0 else ShiftMask) |||
          (if state &&& mask ≠ 0 then 0 else mask)]

/-- `vncKeysymToKeycode` with a `new_state`, which is of no use where there is no key. -/
def vncKeysymToKeycode (kb : Keyboard κ) (keysym : KeySym) : Option (KeyCode × State) :=
  (newStates xkb kb kb.state).findSome? fun newState =>
    let keycode := keysymToKeycode xkb kb.keymap keysym newState
    if keycode = 0 then none else some (keycode, newState)

/-- The mask is looked up for the key that is to be pressed. -/
def vncIsAffectedByNumLock (kb : Keyboard κ) (keycode : KeyCode) : Bool :=
  let numlockKeycode := keysymToKeycode xkb kb.keymap XK_Num_Lock (groupState kb)
  if numlockKeycode = 0 then false
  else
    match xkb.keyAction kb.keymap numlockKeycode (groupState kb) with
    | none => false
    | some act =>
      act.type = .lockMods &&
        (xkb.typeMask kb.keymap keycode (groupState kb)).setWidth 32 &&&
          actionMods xkb kb.keymap keycode act ≠ 0

/-! ## A new key -/

/-- The keys that have been mapped first and last of those that still are. -/
structure Oldest where
  needFree : KeyCode → BitVec 32
  newest : KeyCode
  oldest : KeyCode

def Oldest.look (o : Oldest) (i : KeyCode) : Oldest :=
  -- protect from uint rollover
  let needFree := if o.needFree i = MAX_MAPPINGS then Function.update o.needFree i 1 else o.needFree
  let newest := if needFree i > needFree o.newest ∧ needFree i ≠ UINT_MAX then i else o.newest
  let oldest := if needFree i < needFree o.oldest ∧ needFree i > 0 then i else o.oldest
  -- mark as free to use
  ⟨if needFree i = UINT_MAX then Function.update needFree i 0 else needFree, newest, oldest⟩

/-- A keysym that has two cases is put on a key in both. -/
def keyLevels (keysym : KeySym) : List KeySym :=
  let (lower, upper) := xkb.convertCase keysym
  if upper = lower then [keysym] else [lower, upper]

/-- The key is 0 if there is none. -/
def vncAddKeysym (input : Input κ) (keysym : KeySym) : Input κ × KeyCode :=
  let kb := input.keyboard
  let free := (keycodes xkb kb.keymap).reverse.filter fun i =>
    xkb.keyNumGroups kb.keymap i = 0 ∧ input.needFree i ≠ UINT_MAX
  let key := free.headD 0
  if key < xkb.minKeyCode kb.keymap then (input, 0)
  else
    let o := (List.range' 1 255).foldl Oldest.look ⟨input.needFree, 0, 0⟩
    let age := o.needFree o.newest + 1
    let needFree := Function.update (Function.update o.needFree o.newest age) key age
    let scarce := free.length < 3 ∧ input.freeKeys
    if scarce ∧ needFree o.oldest = 0 then ({ input with needFree }, 0)
    else
      -- free the oldest key, which can be used after one more cycle
      let needFree := if scarce then Function.update needFree o.oldest UINT_MAX else needFree
      let keymap := if scarce then xkb.removeKeycode kb.keymap o.oldest else kb.keymap
      let keymap := xkb.changeKey keymap key (keyLevels xkb keysym)
      ({ input with needFree, keyboard := { kb with keymap } }, key)

/-! ## The choice -/

/-- Shift would have to be changed for the key. -/
def changesShift (state newState : State) : Bool :=
  state &&& ShiftMask ≠ newState &&& ShiftMask

/-- An alternative for a key of the keypad that would need a fake shift. -/
def avoidShift (input : Input κ) (keysym : KeySym) (found : KeyCode × State) :
    KeyCode × State :=
  let kb := input.keyboard
  if changesShift kb.state found.2 && input.avoidShiftNumLock &&
      vncIsAffectedByNumLock xkb kb found.1 then
    ((alternatives keysym).findSome? fun altsym =>
      (vncKeysymToKeycode xkb kb altsym).filter fun other =>
        !(changesShift kb.state other.2 && vncIsAffectedByNumLock xkb kb other.1)).getD found
  else found

/-- Shifted Tab is whatever the key for Tab gives with Shift. -/
def shiftTab (kb : Keyboard κ) (keysym : KeySym) (newState : State) : State :=
  if keysym = XK_Tab ∧ kb.state &&& ShiftMask ≠ 0 then newState ||| ShiftMask else newState

/-- The keysym itself, or an equivalent one. -/
def findKey (kb : Keyboard κ) (keysym : KeySym) : Option (KeyCode × State) :=
  (keysym :: alternatives keysym).findSome? (vncKeysymToKeycode xkb kb)

/-- The first part of `vncKeysymKeyboardEvent`: the key that is to be pressed, and the state it
is to be pressed in. -/
def chooseKey (input : Input κ) (keysym : KeySym) : Input κ × Option (KeyCode × State) :=
  let choose (input : Input κ) (found : KeyCode × State) : Option (KeyCode × State) :=
    let (keycode, newState) := avoidShift xkb input keysym found
    some (keycode, shiftTab input.keyboard keysym newState)
  match findKey xkb input.keyboard keysym with
  | some found => (input, choose input found)
  | none =>
    let (input, keycode) := vncAddKeysym xkb input keysym
    if keycode = 0 then (input, none)
    else (input, (vncKeysymToKeycode xkb input.keyboard keysym).bind (choose input))

end KasmVNC.Unix
