import KasmVNC.Unix.AddKeysym
import KasmVNC.Unix.FakeModifiers

/-!
# Released keys

A key of the client comes with a code, which says what key of the server it is, or as a keysym. For
a keysym the table of pressed keys says what key it has been pressed with. The table has one keysym
for a key, and both ways write to it, so that a key that is down can lose its entry, or another one
with the same keysym is found first.
-/

namespace KasmVNC.Unix

open KasmVNC.Lib

/-- What is put on the queue: a key that the client has specified, or one for a keysym. -/
inductive Queued
  | raw (key : KeyCode) (down : Bool)
  | keysym (e : KeyEvent)
deriving DecidableEq

/-- The key that is pressed or released, if that is not temporary. -/
def Queued.lasting : Queued → Option (KeyCode × Bool)
  | .raw key down => some (key, down)
  | .keysym e => if e.Fake then none else some (e.key, e.down)

section Events

variable {κ : Type} (xkb : Xkb κ)

/-- The events for a keysym, or none without one. -/
def keysymEvent (input : Input κ) (keysym : KeySym) (down : Bool) : Input κ × List Queued :=
  if keysym ≠ NoSymbol then
    let (input, es) := vncKeysymKeyboardEvent xkb input keysym down
    (input, es.map .keysym)
  else (input, [])

def vncKeyboardEvent (codeMap : List KeyCode) (input : Input κ) (keysym : KeySym) (xtcode : ℕ)
    (down : Bool) : Input κ × List Queued :=
  if xtcode ≠ 0 ∧ xtcode < codeMap.length then
    let keycode := codeMap.getD xtcode 0
    if keycode = 0 then keysymEvent xkb input keysym down
    else
      -- in case we get a mix of events with and without key codes
      ({ input with
        pressedKeys := Function.update input.pressedKeys keycode
          (if down then keysym else NoSymbol) }, [.raw keycode down])
  else keysymEvent xkb input keysym down

end Events

/-! ## Sequences of events -/

/-- The variables, the keysyms and codes that the client has pressed and not released, and all
that has been put on the queue. -/
structure Typing (κ : Type) where
  input : Input κ
  held : List (KeySym × ℕ)
  log : List Queued

inductive TypingEvent (κ : Type)
  | key (keysym : KeySym) (xtcode : ℕ) (down : Bool)
  /-- The keymap or the state of the keyboard changes, or a parameter. -/
  | server (keyboard : Keyboard κ) (avoidShiftNumLock : Bool)

/-- A key has been released after its last press. -/
def Released (log : List Queued) (key : KeyCode) : Prop :=
  ∀ before q after, log = before ++ q :: after → q.lasting = some (key, true) →
    ∃ r ∈ after, r.lasting = some (key, false)

/-- The key for a code of the client, or 0. -/
def rawKeycode (codeMap : List KeyCode) (xtcode : ℕ) : KeyCode :=
  if xtcode ≠ 0 ∧ xtcode < codeMap.length then codeMap.getD xtcode 0 else 0

/-- The client holds something whose code is for the key. -/
def RawHeld (codeMap : List KeyCode) (held : List (KeySym × ℕ)) (key : KeyCode) : Prop :=
  key ≠ 0 ∧ ∃ p ∈ held, rawKeycode codeMap p.2 = key

/-- The client holds a keysym without a code for a key. -/
def KeysymHeld (codeMap : List KeyCode) (held : List (KeySym × ℕ)) (keysym : KeySym) : Prop :=
  keysym ≠ NoSymbol ∧ ∃ p ∈ held, p.1 = keysym ∧ rawKeycode codeMap p.2 = 0

namespace Typing

variable {κ : Type} (xkb : Xkb κ) (codeMap : List KeyCode)

/-- `vncInitInputDevice` -/
def start (keyboard : Keyboard κ) (freeKeys avoidShiftNumLock : Bool) : Typing κ :=
  ⟨⟨keyboard, fun _ => NoSymbol, fun _ => 0, freeKeys, avoidShiftNumLock⟩, [], []⟩

def step (s : Typing κ) : TypingEvent κ → Typing κ
  | .key keysym xtcode down =>
    let (input, es) := vncKeyboardEvent xkb codeMap s.input keysym xtcode down
    ⟨input, if down then (keysym, xtcode) :: s.held
      else s.held.filter (· ≠ (keysym, xtcode)), s.log ++ es⟩
  | .server keyboard avoidShiftNumLock =>
    { s with input := { s.input with keyboard, avoidShiftNumLock } }

/-- The key that a keysym is pressed with, where no fake modifier is missing. -/
def Generates (input : Input κ) (keysym : KeySym) (key : KeyCode) : Prop :=
  ∃ input' newState, chooseKey xkb input keysym = (input', some (key, newState)) ∧
    (fakeShift xkb input'.keyboard newState).isSome ∧
    (fakeLevelThree xkb input'.keyboard newState).isSome

/-- Without a code, a keysym is pressed with the key that has it already, and is released when
the key that is found first is the only one that has it. Others may have it if the client holds
what it needs to release them. -/
def Single (s : Typing κ) : TypingEvent κ → Prop
  | .key keysym xtcode true => rawKeycode codeMap xtcode = 0 → keysym ≠ NoSymbol →
      ∀ key, Generates xkb s.input keysym key → ∀ other, other ≠ key →
        s.input.pressedKeys other = keysym → RawHeld codeMap s.held other
  | .key keysym xtcode false => rawKeycode codeMap xtcode = 0 → keysym ≠ NoSymbol →
      ∀ key, (List.range 256).find? (fun i => s.input.pressedKeys i = keysym) = some key →
        ∀ other, other ≠ key → s.input.pressedKeys other = keysym →
          RawHeld codeMap s.held other ∨
            KeysymHeld codeMap (s.held.filter (· ≠ (keysym, xtcode))) keysym
  | .server _ _ => True

end Typing

/-! ## Keys that are down -/

/-- What an event does to the keys that are down. -/
def Queued.apply (down : KeyCode → Bool) (q : Queued) : KeyCode → Bool :=
  match q.lasting with
  | none => down
  | some (key, d) => Function.update down key d

def isDown (log : List Queued) : KeyCode → Bool := log.foldl Queued.apply fun _ => false

theorem isDown_append (log es : List Queued) :
    isDown (log ++ es) = es.foldl Queued.apply (isDown log) :=
  List.foldl_append

theorem isDown_concat (log : List Queued) (q : Queued) :
    isDown (log ++ [q]) = q.apply (isDown log) :=
  isDown_append log [q]

/-- Where an event of a longer log is. -/
theorem concat_split {log before after : List Queued} {p q : Queued}
    (h : log ++ [q] = before ++ p :: after) :
    after = [] ∧ q = p ∨ ∃ rest, after = rest ++ [q] ∧ log = before ++ p :: rest := by
  rcases List.eq_nil_or_concat' after with rfl | ⟨rest, r, rfl⟩
  · exact Or.inl ⟨rfl, (List.cons.inj (List.append_inj' h rfl).2).1⟩
  · have hsame : log ++ [q] = (before ++ p :: rest) ++ [r] := by
      rw [h, List.append_assoc, List.cons_append]
    obtain ⟨hlog, hlast⟩ := List.append_inj' hsame rfl
    obtain ⟨rfl, -⟩ := List.cons.inj hlast
    exact Or.inr ⟨rest, rfl, hlog⟩

/-- An event that does not press a key leaves it released. -/
theorem Released.concat {log : List Queued} {key : KeyCode} {q : Queued} (h : Released log key)
    (hq : q.lasting ≠ some (key, true)) : Released (log ++ [q]) key := by
  intro before p after hsplit hp
  rcases concat_split hsplit with ⟨-, rfl⟩ | ⟨rest, rfl, hlog⟩
  · exact absurd hp hq
  · obtain ⟨r, hr, hreleased⟩ := h before p rest hlog hp
    exact ⟨r, List.mem_append_left _ hr, hreleased⟩

/-- A release is behind every press. -/
theorem released_concat {key : KeyCode} {q : Queued} (log : List Queued)
    (hq : q.lasting = some (key, false)) : Released (log ++ [q]) key := by
  intro before p after hsplit hp
  rcases concat_split hsplit with ⟨-, rfl⟩ | ⟨rest, rfl, -⟩
  · rw [hq] at hp
    cases hp
  · exact ⟨q, List.mem_append_right _ List.mem_cons_self, hq⟩

/-- A key is down unless it has been released after its last press. -/
theorem released_iff {log : List Queued} {key : KeyCode} :
    Released log key ↔ isDown log key = false := by
  induction log using List.reverseRecOn with
  | nil => exact iff_of_true (fun before q after hsplit _ => absurd hsplit.symm (by simp)) rfl
  | append_singleton log q ih =>
    -- an event that is not about the key
    have hother (hq : ∀ d, q.lasting ≠ some (key, d)) :
        Released (log ++ [q]) key ↔ Released log key := by
      refine ⟨fun h before p after hsplit hp => ?_, fun h => h.concat (hq true)⟩
      obtain ⟨r, hr, hreleased⟩ := h before p (after ++ [q]) (by rw [hsplit]; simp) hp
      rcases List.mem_append.mp hr with hr | hr
      · exact ⟨r, hr, hreleased⟩
      · rw [List.mem_singleton.mp hr] at hreleased
        exact absurd hreleased (hq false)
    rw [isDown_concat, Queued.apply]
    cases hq : q.lasting with
    | none => exact (hother fun d => by rw [hq]; nofun).trans ih
    | some press =>
      obtain ⟨k, d⟩ := press
      dsimp only
      rcases eq_or_ne key k with rfl | hne
      · rw [Function.update_self]
        cases d with
        | false => exact iff_of_true (released_concat log hq) rfl
        | true =>
          refine iff_of_false (fun h => ?_) nofun
          obtain ⟨r, hr, -⟩ := h log q [] rfl hq
          cases hr
      · rw [Function.update_of_ne hne]
        refine (hother fun d' => ?_).trans ih
        rw [hq]
        exact fun heq => hne (congrArg Prod.fst (Option.some.inj heq)).symm

/-! ## The events for a keysym -/

section Keysym

variable {κ : Type} {xkb : Xkb κ} {input : Input κ} {keysym : KeySym}

theorem chooseKey_pressedKeys (xkb : Xkb κ) (input : Input κ) (keysym : KeySym) :
    (chooseKey xkb input keysym).1.pressedKeys = input.pressedKeys := by
  have hadd : (vncAddKeysym xkb input keysym).1.pressedKeys = input.pressedKeys := by
    rw [vncAddKeysym_eq]
    split
    · rfl
    · split <;> rfl
  unfold chooseKey
  cases findKey xkb input.keyboard keysym with
  | some found => rfl
  | none =>
    dsimp only
    split
    · exact hadd
    · exact hadd

theorem mem_range_le {k lo hi n : ℕ} (hk : k ∈ List.range' lo (hi + 1 - lo)) (hhi : hi ≤ n) :
    k ≤ n := by
  have hmem := List.mem_range'_1.mp hk
  omega

/-- A key that is found has a keycode of 8 bits. -/
theorem lt_of_keysymToKeycode (hmax : ∀ m, xkb.maxKeyCode m ≤ 255) {kb : Keyboard κ}
    {found : KeyCode × State} (h : vncKeysymToKeycode xkb kb keysym = some found) :
    found.1 < 256 := by
  obtain ⟨newState, -, hfound⟩ := List.exists_of_findSome?_eq_some h
  dsimp only at hfound
  split at hfound
  · cases hfound
  · next hne =>
      obtain rfl := Option.some.inj hfound
      unfold keysymToKeycode at hne ⊢
      cases hfind : (keycodes xkb kb.keymap).find? (givesKeysym xkb kb.keymap keysym newState) with
      | none =>
        rw [hfind] at hne
        exact absurd rfl hne
      | some k =>
        exact Nat.lt_succ_of_le (mem_range_le (List.mem_of_find?_eq_some hfind) (hmax kb.keymap))

theorem Typing.Generates.lt {key : KeyCode} (h : Typing.Generates xkb input keysym key)
    (hmax : ∀ m, xkb.maxKeyCode m ≤ 255) : key < 256 := by
  obtain ⟨input', newState, hchoose, -, -⟩ := h
  exact found_of_chooseKey (P := fun _ found => found.1 < 256)
    (fun _ _ _ hfound => lt_of_keysymToKeycode hmax hfound) (fun _ _ _ _ hkey => hkey) hchoose

/-- The key that is generated is pressed between temporary events, and the table has it for the
keysym. -/
theorem Typing.Generates.press {key : KeyCode} (h : Typing.Generates xkb input keysym key) :
    (vncKeysymKeyboardEvent xkb input keysym true).1.pressedKeys =
        (storeMapping input key keysym).pressedKeys ∧
      ∃ before after, (∀ e ∈ before, e.Fake) ∧ (∀ e ∈ after, e.Fake) ∧
        (vncKeysymKeyboardEvent xkb input keysym true).2 =
          before ++ ⟨key, true, .keycode⟩ :: after := by
  obtain ⟨input', newState, hchoose, hshift, hlevelThree⟩ := h
  obtain ⟨shift, hshift⟩ := Option.isSome_iff_exists.mp hshift
  obtain ⟨levelThree, hlevelThree⟩ := Option.isSome_iff_exists.mp hlevelThree
  have hpressed := chooseKey_pressedKeys xkb input keysym
  have hfakes := fake_of_shift hshift
  have hlevels := fake_of_levelThree hlevelThree
  unfold vncKeysymKeyboardEvent
  rw [hchoose] at hpressed ⊢
  rw [if_neg (by decide)]
  dsimp only
  rw [hshift]
  dsimp only
  rw [hlevelThree]
  refine ⟨?_, shift ++ levelThree, levelThree.map KeyEvent.undo ++ shift.map KeyEvent.undo,
    fun e he => (List.mem_append.mp he).elim (hfakes e) (hlevels e),
    fun e he => (List.mem_append.mp he).elim (fake_undo hlevels e) (fake_undo hfakes e), ?_⟩
  · dsimp only [storeMapping]
    rw [hpressed]
  · simp only [List.append_assoc, List.cons_append, List.nil_append]

/-- Where no key is generated all events are temporary. -/
theorem press_of_not_generates (h : ∀ key, ¬Typing.Generates xkb input keysym key) :
    (vncKeysymKeyboardEvent xkb input keysym true).1.pressedKeys = input.pressedKeys ∧
      ∀ e ∈ (vncKeysymKeyboardEvent xkb input keysym true).2, e.Fake := by
  have hpressed := chooseKey_pressedKeys xkb input keysym
  unfold vncKeysymKeyboardEvent
  rw [if_neg (by decide)]
  cases hchoose : chooseKey xkb input keysym with
  | mk input' found =>
    rw [hchoose] at hpressed
    cases found with
    | none => exact ⟨hpressed, nofun⟩
    | some found =>
      obtain ⟨key, newState⟩ := found
      dsimp only
      cases hshift : fakeShift xkb input'.keyboard newState with
      | none => exact ⟨hpressed, nofun⟩
      | some shift =>
        dsimp only
        cases hlevelThree : fakeLevelThree xkb input'.keyboard newState with
        | none => exact ⟨hpressed, fake_of_shift hshift⟩
        | some levelThree =>
          exact absurd ⟨input', newState, hchoose, by rw [hshift]; rfl,
            by rw [hlevelThree]; rfl⟩ (h key)

/-- The key that is found for a keysym. -/
theorem of_find {key : KeyCode}
    (h : (List.range 256).find? (fun i => input.pressedKeys i = keysym) = some key) :
    key < 256 ∧ input.pressedKeys key = keysym := by
  have hsame := List.find?_some h
  rw [decide_eq_true_eq] at hsame
  exact ⟨List.mem_range.mp (List.mem_of_find?_eq_some h), hsame⟩

theorem storeMapping_self {key : KeyCode} :
    (storeMapping input key keysym).pressedKeys key = keysym :=
  if_pos rfl

theorem storeMapping_of_ne {key other : KeyCode} (hne : other ≠ key)
    (hsym : input.pressedKeys other ≠ keysym) :
    (storeMapping input key keysym).pressedKeys other = input.pressedKeys other :=
  (if_neg hne).trans (if_neg hsym)

/-- A keysym that no key has had is pressed with one key. -/
theorem only_key_of_press (xkb : Xkb κ) (hnone : ∀ i, input.pressedKeys i ≠ keysym) :
    ∃ key, ∀ other, (vncKeysymKeyboardEvent xkb input keysym true).1.pressedKeys other = keysym →
      other = key := by
  by_cases h : ∃ key, Typing.Generates xkb input keysym key
  · obtain ⟨key, hkey⟩ := h
    refine ⟨key, fun other hother => ?_⟩
    by_contra hne
    rw [hkey.press.1, storeMapping_of_ne hne (hnone other)] at hother
    exact hnone other hother
  · refine ⟨0, fun other hother => ?_⟩
    rw [(press_of_not_generates (not_exists.mp h)).1] at hother
    exact absurd hother (hnone other)

/-- Temporary events leave the keys as they are. -/
theorem apply_fakes {es : List KeyEvent} (h : ∀ e ∈ es, e.Fake) (down : KeyCode → Bool) :
    (es.map Queued.keysym).foldl Queued.apply down = down := by
  induction es with
  | nil => rfl
  | cons e es ih =>
    obtain ⟨he, hes⟩ := List.forall_mem_cons.mp h
    have hnone : (Queued.keysym e).lasting = none := if_pos he
    rw [List.map_cons, List.foldl_cons, Queued.apply, hnone]
    exact ih hes

theorem apply_press {before after : List KeyEvent} {key : KeyCode}
    (hbefore : ∀ e ∈ before, e.Fake) (hafter : ∀ e ∈ after, e.Fake) (down : KeyCode → Bool) :
    ((before ++ ⟨key, true, .keycode⟩ :: after).map Queued.keysym).foldl Queued.apply down =
      Function.update down key true := by
  rw [List.map_append, List.map_cons, List.foldl_append, List.foldl_cons, apply_fakes hbefore,
    apply_fakes hafter]
  rfl

end Keysym

/-! ## What is held -/

section Held

variable {codeMap : List KeyCode} {held : List (KeySym × ℕ)} {p : KeySym × ℕ}

theorem RawHeld.cons {key : KeyCode} (h : RawHeld codeMap held key) :
    RawHeld codeMap (p :: held) key := by
  obtain ⟨hne, q, hq, hkey⟩ := h
  exact ⟨hne, q, List.mem_cons_of_mem p hq, hkey⟩

theorem KeysymHeld.cons {keysym : KeySym} (h : KeysymHeld codeMap held keysym) :
    KeysymHeld codeMap (p :: held) keysym := by
  obtain ⟨hne, q, hq, hsym⟩ := h
  exact ⟨hne, q, List.mem_cons_of_mem p hq, hsym⟩

/-- What is held for another key stays held. -/
theorem RawHeld.filter {key : KeyCode} (h : RawHeld codeMap held key)
    (hp : rawKeycode codeMap p.2 ≠ key) : RawHeld codeMap (held.filter (· ≠ p)) key := by
  obtain ⟨hne, q, hq, hkey⟩ := h
  refine ⟨hne, q, List.mem_filter.mpr ⟨hq, decide_eq_true ?_⟩, hkey⟩
  rintro rfl
  exact hp hkey

theorem KeysymHeld.filter {keysym : KeySym} (h : KeysymHeld codeMap held keysym)
    (hp : p.1 ≠ keysym ∨ rawKeycode codeMap p.2 ≠ 0) :
    KeysymHeld codeMap (held.filter (· ≠ p)) keysym := by
  obtain ⟨hne, q, hq, hsym, hraw⟩ := h
  refine ⟨hne, q, List.mem_filter.mpr ⟨hq, decide_eq_true ?_⟩, hsym, hraw⟩
  rintro rfl
  exact hp.elim (fun h => h hsym) fun h => h hraw

end Held

namespace Typing

section Tied

variable {κ : Type} {xkb : Xkb κ} {codeMap : List KeyCode} {s : Typing κ}

/-- What a key of the client does to the table and to the keys that are down. -/
inductive KeyEffect (xkb : Xkb κ) (codeMap : List KeyCode) (s : Typing κ) (keysym : KeySym)
    (xtcode : ℕ) : Bool → (KeyCode → KeySym) → (KeyCode → Bool) → Prop
  | raw {down : Bool} (hraw : rawKeycode codeMap xtcode ≠ 0) :
      KeyEffect xkb codeMap s keysym xtcode down
        (Function.update s.input.pressedKeys (rawKeycode codeMap xtcode)
          (if down then keysym else NoSymbol))
        (Function.update (isDown s.log) (rawKeycode codeMap xtcode) down)
  | press {key : KeyCode} (hraw : rawKeycode codeMap xtcode = 0) (hsym : keysym ≠ NoSymbol)
      (hkey : Generates xkb s.input keysym key) :
      KeyEffect xkb codeMap s keysym xtcode true (storeMapping s.input key keysym).pressedKeys
        (Function.update (isDown s.log) key true)
  | release {key : KeyCode} (hraw : rawKeycode codeMap xtcode = 0) (hsym : keysym ≠ NoSymbol)
      (hkey : (List.range 256).find? (fun i => s.input.pressedKeys i = keysym) = some key) :
      KeyEffect xkb codeMap s keysym xtcode false
        (Function.update s.input.pressedKeys key NoSymbol)
        (Function.update (isDown s.log) key false)
  | quiet {down : Bool} (hraw : rawKeycode codeMap xtcode = 0)
      (hpress : down = true → keysym ≠ NoSymbol → ∀ key, ¬Generates xkb s.input keysym key)
      (hrelease : down = false → keysym ≠ NoSymbol → ∀ key < 256,
        s.input.pressedKeys key ≠ keysym) :
      KeyEffect xkb codeMap s keysym xtcode down s.input.pressedKeys (isDown s.log)

theorem vncKeyboardEvent_raw {input : Input κ} {keysym : KeySym} {xtcode : ℕ} {down : Bool}
    (h : rawKeycode codeMap xtcode ≠ 0) :
    vncKeyboardEvent xkb codeMap input keysym xtcode down =
      ({ input with
        pressedKeys := Function.update input.pressedKeys (rawKeycode codeMap xtcode)
          (if down then keysym else NoSymbol) }, [.raw (rawKeycode codeMap xtcode) down]) := by
  unfold vncKeyboardEvent rawKeycode at *
  split at h
  · next hcode => rw [if_pos hcode, if_pos hcode, if_neg h]
  · exact absurd rfl h

theorem vncKeyboardEvent_keysym {input : Input κ} {keysym : KeySym} {xtcode : ℕ} {down : Bool}
    (h : rawKeycode codeMap xtcode = 0) :
    vncKeyboardEvent xkb codeMap input keysym xtcode down = keysymEvent xkb input keysym down := by
  unfold vncKeyboardEvent rawKeycode at *
  split at h
  · next hcode => rw [if_pos hcode, if_pos h]
  · next hcode => rw [if_neg hcode]

theorem step_effect (xkb : Xkb κ) (codeMap : List KeyCode) (s : Typing κ) (keysym : KeySym)
    (xtcode : ℕ) (down : Bool) :
    KeyEffect xkb codeMap s keysym xtcode down
      (s.step xkb codeMap (.key keysym xtcode down)).input.pressedKeys
      (isDown (s.step xkb codeMap (.key keysym xtcode down)).log) := by
  rw [step]
  by_cases hraw : rawKeycode codeMap xtcode = 0
  · rw [vncKeyboardEvent_keysym hraw, keysymEvent]
    by_cases hsym : keysym = NoSymbol
    · rw [if_neg (not_not.mpr hsym)]
      dsimp only
      rw [List.append_nil]
      exact .quiet hraw (fun _ hne => absurd hsym hne) fun _ hne => absurd hsym hne
    rw [if_pos hsym]
    dsimp only
    rw [isDown_append]
    cases down with
    | true =>
      by_cases hkey : ∃ key, Generates xkb s.input keysym key
      · obtain ⟨key, hkey⟩ := hkey
        obtain ⟨hpressed, before, after, hbefore, hafter, hevents⟩ := hkey.press
        rw [hpressed, hevents, apply_press hbefore hafter]
        exact .press hraw hsym hkey
      · obtain ⟨hpressed, hfakes⟩ := press_of_not_generates (not_exists.mp hkey)
        rw [hpressed, apply_fakes hfakes]
        exact .quiet hraw (fun _ _ => not_exists.mp hkey) nofun
    | false =>
      have hevent : vncKeysymKeyboardEvent xkb s.input keysym false =
          releaseKeysym s.input keysym := rfl
      rw [hevent, releaseKeysym]
      cases hfind : (List.range 256).find? fun i => s.input.pressedKeys i = keysym with
      | none =>
        refine .quiet hraw nofun fun _ _ key hkey heq => ?_
        exact List.find?_eq_none.mp hfind key (List.mem_range.mpr hkey) (decide_eq_true heq)
      | some key => exact .release hraw hsym hfind
  · rw [vncKeyboardEvent_raw hraw]
    dsimp only
    rw [isDown_concat]
    exact .raw hraw

/-! ## What a key that is down is tied to -/

/-- A key is tied to what the client holds: to something with a code for it, or to the keysym that
the table has for it. -/
def TiedKey (codeMap : List KeyCode) (pressedKeys : KeyCode → KeySym)
    (held : List (KeySym × ℕ)) (key : KeyCode) : Prop :=
  RawHeld codeMap held key ∨ key < 256 ∧ KeysymHeld codeMap held (pressedKeys key)

/-- Every key that is down is tied. -/
def Tied (codeMap : List KeyCode) (s : Typing κ) : Prop :=
  ∀ key, isDown s.log key = true → TiedKey codeMap s.input.pressedKeys s.held key

section Key

variable {pressedKeys pressedKeys' : KeyCode → KeySym} {held : List (KeySym × ℕ)} {key : KeyCode}
  {p : KeySym × ℕ}

theorem TiedKey.cons (h : TiedKey codeMap pressedKeys held key)
    (hsame : pressedKeys' key = pressedKeys key) :
    TiedKey codeMap pressedKeys' (p :: held) key := by
  unfold TiedKey at h ⊢
  rw [hsame]
  exact h.imp RawHeld.cons fun htable => ⟨htable.1, htable.2.cons⟩

/-- What is released was not needed for the key. -/
theorem TiedKey.filter (h : TiedKey codeMap pressedKeys held key)
    (hraw : rawKeycode codeMap p.2 ≠ key ∨ rawKeycode codeMap p.2 = 0)
    (hsym : rawKeycode codeMap p.2 = 0 → p.1 ≠ NoSymbol → key < 256 → pressedKeys key ≠ p.1)
    (hsame : pressedKeys' key = pressedKeys key) :
    TiedKey codeMap pressedKeys' (held.filter (· ≠ p)) key := by
  unfold TiedKey at h ⊢
  rw [hsame]
  rcases h with hcode | ⟨hlt, htable⟩
  · exact Or.inl (hcode.filter (hraw.elim id fun hzero => hzero ▸ hcode.1.symm))
  · refine Or.inr ⟨hlt, htable.filter ?_⟩
    by_cases hzero : rawKeycode codeMap p.2 = 0
    · refine Or.inl fun heq => ?_
      exact hsym hzero (heq ▸ htable.1) hlt heq.symm
    · exact Or.inr hzero

end Key

/-- What is held after a key of the client. -/
def heldAfter (held : List (KeySym × ℕ)) (p : KeySym × ℕ) (down : Bool) : List (KeySym × ℕ) :=
  if down then p :: held else held.filter (· ≠ p)

/-- A key of the client that is pressed or released leaves the keys tied. -/
theorem KeyEffect.tied (hmax : ∀ m, xkb.maxKeyCode m ≤ 255) {keysym : KeySym} {xtcode : ℕ}
    {down : Bool} {pressedKeys : KeyCode → KeySym} {isDown' : KeyCode → Bool}
    (heffect : KeyEffect xkb codeMap s keysym xtcode down pressedKeys isDown')
    (h : s.Tied codeMap) (hsingle : s.Single xkb codeMap (.key keysym xtcode down))
    {key : KeyCode} (hkey : isDown' key = true) :
    TiedKey codeMap pressedKeys (heldAfter s.held (keysym, xtcode) down) key := by
  cases heffect with
  | raw hraw =>
    rcases eq_or_ne key (rawKeycode codeMap xtcode) with rfl | hne
    · rw [Function.update_self] at hkey
      subst hkey
      exact Or.inl ⟨hraw, (keysym, xtcode), List.mem_cons_self, rfl⟩
    · rw [Function.update_of_ne hne] at hkey
      cases down with
      | true => exact (h key hkey).cons (Function.update_of_ne hne _ _)
      | false =>
        exact (h key hkey).filter (Or.inl hne.symm) (fun hzero => absurd hzero hraw)
          (Function.update_of_ne hne _ _)
  | @press found hraw hsym hgenerates =>
    rcases eq_or_ne key found with rfl | hne
    · refine Or.inr ⟨hgenerates.lt hmax, ?_⟩
      rw [storeMapping_self]
      exact ⟨hsym, (keysym, xtcode), List.mem_cons_self, rfl, hraw⟩
    · rw [Function.update_of_ne hne] at hkey
      by_cases hsame : s.input.pressedKeys key = keysym
      · -- the entry of this key is cleared
        exact Or.inl (hsingle hraw hsym found hgenerates key hne hsame).cons
      · exact (h key hkey).cons (storeMapping_of_ne hne hsame)
  | @release found hraw hsym hfound =>
    have hne : key ≠ found := by
      rintro rfl
      rw [Function.update_self] at hkey
      cases hkey
    rw [Function.update_of_ne hne] at hkey
    have hsamekey := Function.update_of_ne hne NoSymbol s.input.pressedKeys
    by_cases hsame : s.input.pressedKeys key = keysym
    · rcases h key hkey with hcode | ⟨hlt, -⟩
      · exact Or.inl (hcode.filter (hraw ▸ hcode.1.symm))
      refine (hsingle hraw hsym found hfound key hne hsame).imp (fun hcode => ?_) fun hheld => ?_
      · exact hcode.filter (hraw ▸ hcode.1.symm)
      · rw [hsamekey, hsame]
        exact ⟨hlt, hheld⟩
    · exact (h key hkey).filter (Or.inr hraw) (fun _ _ _ => hsame) hsamekey
  | quiet hraw hpress hrelease =>
    cases down with
    | true => exact (h key hkey).cons rfl
    | false => exact (h key hkey).filter (Or.inr hraw) (fun _ hsym => hrelease rfl hsym key) rfl

theorem Tied.step (hmax : ∀ m, xkb.maxKeyCode m ≤ 255) (h : s.Tied codeMap) {e : TypingEvent κ}
    (hsingle : s.Single xkb codeMap e) : (s.step xkb codeMap e).Tied codeMap := by
  cases e with
  | server keyboard avoidShiftNumLock => exact h
  | key keysym xtcode down =>
    exact fun key hkey => (step_effect _ _ s keysym xtcode down).tied hmax h hsingle hkey

end Tied

/-- **Released keys.** As long as no keysym comes to be generated by a second key and no other key
is found for it first, unless the client can still release that one, no key stays down when the
client has released all it has pressed. -/
theorem keys_released {κ : Type} {xkb : Xkb κ} (hmax : ∀ m, xkb.maxKeyCode m ≤ 255)
    (codeMap : List KeyCode) (keyboard : Keyboard κ) (freeKeys avoidShiftNumLock : Bool)
    {es : List (TypingEvent κ)}
    (hsingle : Guarded (step xkb codeMap) (Single xkb codeMap)
      (start keyboard freeKeys avoidShiftNumLock) es) :
    ∀ before, before <+: es →
      (run (step xkb codeMap) (start keyboard freeKeys avoidShiftNumLock) before).held = [] →
      ∀ key, Released
        (run (step xkb codeMap) (start keyboard freeKeys avoidShiftNumLock) before).log key := by
  rintro before ⟨after, rfl⟩ hheld key
  have hstart : (start keyboard freeKeys avoidShiftNumLock).Tied codeMap :=
    fun key hkey => absurd hkey Bool.false_ne_true
  have htied := run_invariant (I := Tied codeMap) (fun s e hs hok => Tied.step hmax hs hok) hstart
    (guarded_append.mp hsingle).1
  rw [released_iff]
  by_contra hdown
  rcases htied key (eq_true_of_ne_false hdown) with ⟨-, p, hp, -⟩ | ⟨-, -, p, hp, -⟩
  · rw [hheld] at hp
    cases hp
  · rw [hheld] at hp
    cases hp

/-! ### A keymap that changes -/

/-- a and q, where a keyboard for English has them or the other way round. -/
def letters (azerty : Bool) : Keyboard (KeyCode → Option (List KeySym)) where
  keymap key :=
    if key = 38 then some (if azerty then [0x71, 0x51] else [0x61, 0x41])
    else if key = 24 then some (if azerty then [0x61, 0x41] else [0x71, 0x51])
    else none
  state := 0
  keyIsDown _ := false

def lettersStart : Typing (KeyCode → Option (List KeySym)) := start (letters false) true true

/-- What has been put on the queue when 1 comes with its code, and a is pressed while it is held. -/
def lettersLog : List Queued :=
  (run (step levelsXkb [0, 9, 10]) lettersStart
    [.key 0x31 2 true, .key 0x61 0 true, .key 0x61 0 false, .key 0x31 2 false]).log

theorem letters_released : Released lettersLog 10 ∧ Released lettersLog 38 := by
  have hnone : ∀ i, (lettersStart.step levelsXkb [0, 9, 10] (.key 0x31 2 true)).input.pressedKeys i
      ≠ 0x61 := by
    intro i
    show Function.update (fun _ => NoSymbol) 10 0x31 i ≠ 0x61
    rcases eq_or_ne i 10 with rfl | hne
    · rw [Function.update_self]
      decide
    · rw [Function.update_of_ne hne]
      decide
  obtain ⟨k, hk⟩ := only_key_of_press levelsXkb hnone
  have hsingle : Guarded (step levelsXkb [0, 9, 10]) (Single levelsXkb [0, 9, 10]) lettersStart
      [.key 0x31 2 true, .key 0x61 0 true, .key 0x61 0 false, .key 0x31 2 false] := by
    refine ⟨fun hraw => absurd hraw (by decide),
      fun _ _ _ _ other _ hother => absurd hother (hnone other),
      fun _ _ found hfound other hne hother => ?_, fun hraw => absurd hraw (by decide), trivial⟩
    exact absurd ((hk other hother).trans (hk found (of_find hfound).2).symm) hne
  have hreleased : ∀ key, Released lettersLog key :=
    keys_released (fun _ => Nat.le_refl 255) [0, 9, 10] (letters false) true true hsingle _
      (List.prefix_refl _) (by decide +kernel)
  exact ⟨hreleased 10, hreleased 38⟩

/-- a is held while the keymap changes, is pressed again and released, once for each time: its first
key stays down. -/
theorem key_stays_down :
    (run (step levelsXkb []) lettersStart
      [.key 0x61 0 true, .server (letters true) true, .key 0x61 0 true, .key 0x61 0 false,
        .key 0x61 0 false]).held = [] ∧
    ¬Released (run (step levelsXkb []) lettersStart
      [.key 0x61 0 true, .server (letters true) true, .key 0x61 0 true, .key 0x61 0 false,
        .key 0x61 0 false]).log 38 := by
  have hlog : (run (step levelsXkb []) lettersStart
      [.key 0x61 0 true, .server (letters true) true, .key 0x61 0 true, .key 0x61 0 false,
        .key 0x61 0 false]).log =
      [.keysym ⟨38, true, .keycode⟩, .keysym ⟨24, true, .keycode⟩,
        .keysym ⟨24, false, .keycode⟩] := by decide +kernel
  refine ⟨by decide +kernel, ?_⟩
  rw [hlog, released_iff]
  decide

end Typing

end KasmVNC.Unix
