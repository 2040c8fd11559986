import Mathlib.Data.List.AList
import Mathlib.Data.List.Sort
import KasmVNC.Lib.Strokes
import KasmVNC.Rfb.Congestion
import KasmVNC.Rfb.ConnParams

/-!
# Key events

A connection records which keys its client has pressed. A key is looked up by its
keycode, or by an index made from the keysym if there is no keycode; filters may drop
an event between press and release, and lock and shift keys are inserted to get in
sync with the client. The destructor releases what is still pressed, and knows no more
than the record.
-/

namespace KasmVNC.Rfb

open KasmVNC.Lib

abbrev XK_Tab : UInt32 := 0xFF09
abbrev XK_Scroll_Lock : UInt32 := 0xFF14
abbrev XK_Num_Lock : UInt32 := 0xFF7F
abbrev XK_KP_Home : UInt32 := 0xFF95
abbrev XK_KP_Delete : UInt32 := 0xFF9F
abbrev XK_KP_Separator : UInt32 := 0xFFAC
abbrev XK_KP_Decimal : UInt32 := 0xFFAE
abbrev XK_KP_0 : UInt32 := 0xFFB0
abbrev XK_KP_9 : UInt32 := 0xFFB9
abbrev XK_Shift_L : UInt32 := 0xFFE1
abbrev XK_Shift_R : UInt32 := 0xFFE2
abbrev XK_Caps_Lock : UInt32 := 0xFFE5
abbrev XK_ISO_Left_Tab : UInt32 := 0xFE20
abbrev XK_A : UInt32 := 0x41
abbrev XK_Z : UInt32 := 0x5A
abbrev XK_a : UInt32 := 0x61
abbrev XK_z : UInt32 := 0x7A

abbrev CLIENT_KEEPALIVE_KEYSYM : UInt32 := 1

abbrev ledNumLock : BitVec 32 := 2
abbrev ledCapsLock : BitVec 32 := 4

/-- What the desktop is told: a keysym and a keycode. -/
abbrev Key := UInt32 × UInt32

abbrev KeyCall := Stroke Key

/-- `pressedKeys`: the keysyms by their lookup index -/
abbrev PressedKeys := AList fun _ : UInt32 => UInt32

/-- What `keyEvent` reads of the server and of the client's parameters. -/
structure KeyEnv where
  accessKeyEvents : Bool
  acceptKeyEvents : Bool
  keyRateLimit : UInt32
  remapKey : UInt32 → UInt32
  ledState : BitVec 32
  supportsLEDState : Bool
  now : Timeval

structure KeyState where
  pressedKeys : PressedKeys
  lastKeyEvent : Timeval

namespace PressedKeys

def isShiftPressed (pressedKeys : PressedKeys) : Bool :=
  pressedKeys.entries.any fun e => e.2 = XK_Shift_L || e.2 = XK_Shift_R

end PressedKeys

/-- The event comes too soon after the last one. -/
def tooSoon (env : KeyEnv) (st : KeyState) (down : Bool) : Bool :=
  env.keyRateLimit > 0 && down &&
    msBetween st.lastKeyEvent env.now < 1000 / env.keyRateLimit

/-- Avoid lock keys if we don't know the server state, and ScrollLock anyway if the
client does not support the LED state extension. -/
def ignoresLock (env : KeyEnv) (keysym : UInt32) : Bool :=
  env.ledState = ledUnknown &&
      (keysym = XK_Caps_Lock || keysym = XK_Num_Lock || keysym = XK_Scroll_Lock) ||
    !env.supportsLEDState && keysym = XK_Scroll_Lock

/-- The lock key heuristics are for clients that do not support the LED state
extension. -/
def syncsLocks (env : KeyEnv) (down : Bool) : Bool :=
  !env.supportsLEDState && down && env.ledState ≠ ledUnknown

/-- A letter does not fit to CapsLock and Shift. -/
def needsCapsLock (env : KeyEnv) (pressedKeys : PressedKeys) (keysym : UInt32) (down : Bool) :
    Bool :=
  let uppercase : Bool := keysym ≥ XK_A && keysym ≤ XK_Z
  let lowercase : Bool := keysym ≥ XK_a && keysym ≤ XK_z
  let lock : Bool := env.ledState &&& ledCapsLock ≠ 0
  syncsLocks env down && (uppercase || lowercase) &&
    (lock == (uppercase == pressedKeys.isShiftPressed))

/-- A key of the keypad does not fit to NumLock, where Shift is not pressed. -/
def needsNumLock (env : KeyEnv) (pressedKeys : PressedKeys) (keysym : UInt32) (down : Bool) :
    Bool :=
  let number : Bool := keysym ≥ XK_KP_0 && keysym ≤ XK_KP_9 || keysym = XK_KP_Separator ||
    keysym = XK_KP_Decimal
  let keypad : Bool := keysym ≥ XK_KP_Home && keysym ≤ XK_KP_Delete || number
  let shift := pressedKeys.isShiftPressed
  let lock : Bool := env.ledState &&& ledNumLock ≠ 0
  syncsLocks env down && keypad && !shift && (lock == (number == shift))

/-- Press and release a key that the client has not pressed. -/
def fakeKey (keysym : UInt32) : List KeyCall := [.press (keysym, 0), .release (keysym, 0)]

/-- A fake index when we aren't given a keycode -/
def lookupIndex (keysym keycode : UInt32) : UInt32 :=
  if keycode = 0 then 0x80000000 ||| keysym else keycode

/-- Record the key and tell the desktop. We force the same keysym for an already down
key; a key that is not down is not released. -/
def trackKey (pressedKeys : PressedKeys) (keysym keycode : UInt32) (down : Bool) :
    PressedKeys × List KeyCall :=
  let lookup := lookupIndex keysym keycode
  let keysym := (pressedKeys.lookup lookup).getD keysym
  if down then (pressedKeys.insert lookup keysym, [.press (keysym, keycode)])
  else if lookup ∈ pressedKeys then (pressedKeys.erase lookup, [.release (keysym, keycode)])
  else (pressedKeys, [])

/-- `VNCSConnectionSTShiftPresser` -/
def withShift (pressShift : Bool) (calls : List KeyCall) : List KeyCall :=
  if pressShift then [.press (XK_Shift_L, 0)] ++ calls ++ [.release (XK_Shift_L, 0)] else calls

def unshiftedTab (keysym : UInt32) : UInt32 :=
  if keysym = XK_ISO_Left_Tab then XK_Tab else keysym

/-- An event that the filters let through, with the remapped keysym. ISO_Left_Tab is
turned into shifted Tab. -/
def pressKey (env : KeyEnv) (pressedKeys : PressedKeys) (keysym keycode : UInt32) (down : Bool) :
    PressedKeys × List KeyCall :=
  let capsLock := if needsCapsLock env pressedKeys keysym down then fakeKey XK_Caps_Lock else []
  let numLock := if needsNumLock env pressedKeys keysym down then fakeKey XK_Num_Lock else []
  let pressShift := keysym = XK_ISO_Left_Tab && !pressedKeys.isShiftPressed
  let tracked := trackKey pressedKeys (unshiftedTab keysym) keycode down
  (tracked.1, capsLock ++ numLock ++ withShift pressShift tracked.2)

/-- The keep-alive key, missing rights and the rate limit -/
def refusesKey (env : KeyEnv) (st : KeyState) (keysym keycode : UInt32) (down : Bool) : Bool :=
  keycode = 0 && keysym = CLIENT_KEEPALIVE_KEYSYM || !env.accessKeyEvents ||
    !env.acceptKeyEvents || tooSoon env st down

def keyEvent (env : KeyEnv) (st : KeyState) (keysym keycode : UInt32) (down : Bool) :
    KeyState × List KeyCall :=
  if refusesKey env st keysym keycode down then (st, [])
  else
    let keysym := env.remapKey keysym
    if ignoresLock env keysym then ({ st with lastKeyEvent := env.now }, [])
    else
      let pressed := pressKey env st.pressedKeys keysym keycode down
      (⟨pressed.1, env.now⟩, pressed.2)

/-- The destructor releases the keys in the order of their indices, and takes the
indices for the keycodes. -/
def releasePressedKeys (pressedKeys : PressedKeys) : List KeyCall :=
  (pressedKeys.entries.insertionSort fun e f => e.1 ≤ f.1).map fun e => .release (e.2, e.1)

end KasmVNC.Rfb
