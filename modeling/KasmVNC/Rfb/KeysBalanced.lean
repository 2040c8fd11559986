import KasmVNC.Rfb.KeyEvents

/-!
# Keys are released as they were pressed

Beside the record of the pressed keys stands the keycode that each was last pressed
with, which the record does not have. Together they are what the desktop has down, as
long as a lookup index stands for one keycode and a lock key is not inserted while it
is held. The destructor has only the index, so it releases what was pressed with a
keycode.
-/

namespace KasmVNC.Rfb

open KasmVNC.Lib

/-! ## What the desktop has down -/

/-- The keycodes that the lookup indices were last pressed with. -/
abbrev Keycodes := UInt32 → UInt32

/-- The keys that are down, by the record and the keycodes. -/
def downKeys (pressedKeys : PressedKeys) (codes : Keycodes) : Finset Key :=
  (pressedKeys.entries.map fun e => (e.2, codes e.1)).toFinset

/-- Every index is that of its keysym and keycode. -/
def Indexed (pressedKeys : PressedKeys) (codes : Keycodes) : Prop :=
  ∀ l s, pressedKeys.lookup l = some s → lookupIndex s (codes l) = l

variable {pressedKeys : PressedKeys} {codes : Keycodes} {keysym keycode : UInt32}

theorem mem_downKeys {k : Key} :
    k ∈ downKeys pressedKeys codes ↔
      ∃ l s, pressedKeys.lookup l = some s ∧ (s, codes l) = k := by
  unfold downKeys
  rw [List.mem_toFinset, List.mem_map]
  constructor
  · rintro ⟨⟨l, s⟩, he, rfl⟩
    exact ⟨l, s, AList.mem_lookup_iff.mpr he, rfl⟩
  · rintro ⟨l, s, hl, rfl⟩
    exact ⟨⟨l, s⟩, AList.mem_lookup_iff.mp hl, rfl⟩

/-- A key that is down has one index. -/
theorem Indexed.unique (h : Indexed pressedKeys codes) {l l' s s' : UInt32}
    (hl : pressedKeys.lookup l = some s) (hl' : pressedKeys.lookup l' = some s')
    (heq : (s, codes l) = (s', codes l')) : l = l' := by
  obtain ⟨hs, hcode⟩ := Prod.mk.inj heq
  rw [← h l s hl, ← h l' s' hl', hs, hcode]

/-- The keysym that the desktop is told. -/
def trackedSym (pressedKeys : PressedKeys) (keysym keycode : UInt32) : UInt32 :=
  (pressedKeys.lookup (lookupIndex keysym keycode)).getD keysym

/-- The index is not that of a key that is held with another keycode. -/
def SameKeycode (pressedKeys : PressedKeys) (codes : Keycodes) (keysym keycode : UInt32) :
    Prop :=
  lookupIndex keysym keycode ∈ pressedKeys → codes (lookupIndex keysym keycode) = keycode

theorem lookupIndex_trackedSym (h : Indexed pressedKeys codes)
    (hcode : SameKeycode pressedKeys codes keysym keycode) :
    lookupIndex (trackedSym pressedKeys keysym keycode) keycode = lookupIndex keysym keycode := by
  unfold trackedSym
  cases hl : pressedKeys.lookup (lookupIndex keysym keycode) with
  | none => rfl
  | some s =>
    have hmem : lookupIndex keysym keycode ∈ pressedKeys :=
      AList.lookup_isSome.mp (by rw [hl]; rfl)
    have hindex := h _ s hl
    rw [hcode hmem] at hindex
    exact hindex

/-! ## One key -/

section Track

variable (h : Indexed pressedKeys codes) (hcode : SameKeycode pressedKeys codes keysym keycode)

include h hcode

theorem Indexed.press :
    Indexed (pressedKeys.insert (lookupIndex keysym keycode)
        (trackedSym pressedKeys keysym keycode))
      (Function.update codes (lookupIndex keysym keycode) keycode) := by
  intro l s hl
  by_cases hsame : l = lookupIndex keysym keycode
  · subst hsame
    rw [AList.lookup_insert] at hl
    obtain rfl := Option.some.inj hl
    rw [Function.update_self]
    exact lookupIndex_trackedSym h hcode
  · rw [AList.lookup_insert_ne hsame] at hl
    rw [Function.update_of_ne hsame]
    exact h l s hl

omit h in
theorem downKeys_press :
    downKeys (pressedKeys.insert (lookupIndex keysym keycode)
        (trackedSym pressedKeys keysym keycode))
        (Function.update codes (lookupIndex keysym keycode) keycode) =
      insert (trackedSym pressedKeys keysym keycode, keycode) (downKeys pressedKeys codes) := by
  ext k
  rw [Finset.mem_insert, mem_downKeys, mem_downKeys]
  constructor
  · rintro ⟨l, s, hl, rfl⟩
    by_cases hsame : l = lookupIndex keysym keycode
    · subst hsame
      rw [AList.lookup_insert] at hl
      obtain rfl := Option.some.inj hl
      rw [Function.update_self]
      exact Or.inl rfl
    · rw [AList.lookup_insert_ne hsame] at hl
      rw [Function.update_of_ne hsame]
      exact Or.inr ⟨l, s, hl, rfl⟩
  · rintro (rfl | ⟨l, s, hl, rfl⟩)
    · refine ⟨lookupIndex keysym keycode, _, AList.lookup_insert _, ?_⟩
      rw [Function.update_self]
    · by_cases hsame : l = lookupIndex keysym keycode
      · -- it was down already, with the same keysym and keycode
        subst hsame
        have hmem : lookupIndex keysym keycode ∈ pressedKeys :=
          AList.lookup_isSome.mp (by rw [hl]; rfl)
        refine ⟨lookupIndex keysym keycode, _, AList.lookup_insert _, ?_⟩
        rw [Function.update_self, hcode hmem, trackedSym, hl]
        rfl
      · refine ⟨l, s, (AList.lookup_insert_ne hsame).trans hl, ?_⟩
        rw [Function.update_of_ne hsame]

omit hcode in
theorem Indexed.release :
    Indexed (pressedKeys.erase (lookupIndex keysym keycode)) codes := by
  intro l s hl
  by_cases hsame : l = lookupIndex keysym keycode
  · rw [hsame, AList.lookup_erase] at hl
    cases hl
  · rw [AList.lookup_erase_ne hsame] at hl
    exact h l s hl

theorem downKeys_release (hdown : lookupIndex keysym keycode ∈ pressedKeys) :
    (trackedSym pressedKeys keysym keycode, keycode) ∈ downKeys pressedKeys codes ∧
      downKeys (pressedKeys.erase (lookupIndex keysym keycode)) codes =
        (downKeys pressedKeys codes).erase (trackedSym pressedKeys keysym keycode, keycode) := by
  obtain ⟨s, hs⟩ := Option.isSome_iff_exists.mp (AList.lookup_isSome.mpr hdown)
  have hsym : trackedSym pressedKeys keysym keycode = s := by
    rw [trackedSym, hs]
    rfl
  have hkey : (s, codes (lookupIndex keysym keycode)) = (s, keycode) := by rw [hcode hdown]
  rw [hsym]
  refine ⟨mem_downKeys.mpr ⟨_, s, hs, hkey⟩, ?_⟩
  ext k
  rw [Finset.mem_erase, mem_downKeys, mem_downKeys]
  constructor
  · rintro ⟨l, t, hl, rfl⟩
    have hne : l ≠ lookupIndex keysym keycode := by
      rintro rfl
      rw [AList.lookup_erase] at hl
      cases hl
    rw [AList.lookup_erase_ne hne] at hl
    exact ⟨fun heq => hne (h.unique hl hs (heq.trans hkey.symm)), l, t, hl, rfl⟩
  · rintro ⟨hout, l, t, hl, rfl⟩
    refine ⟨l, t, ?_, rfl⟩
    rw [AList.lookup_erase_ne]
    · exact hl
    · rintro rfl
      rw [hs] at hl
      obtain rfl := Option.some.inj hl
      exact hout hkey

end Track

/-- The keycodes after an event that was recorded. -/
def recordCode (codes : Keycodes) (keysym keycode : UInt32) (down : Bool) : Keycodes :=
  if down then Function.update codes (lookupIndex keysym keycode) keycode else codes

/-- The record and the desktop stay in step. -/
theorem trackKey_leads (h : Indexed pressedKeys codes)
    (hcode : SameKeycode pressedKeys codes keysym keycode) (down : Bool) :
    Leads (downKeys pressedKeys codes) (trackKey pressedKeys keysym keycode down).2
        (downKeys (trackKey pressedKeys keysym keycode down).1
          (recordCode codes keysym keycode down)) ∧
      Indexed (trackKey pressedKeys keysym keycode down).1
        (recordCode codes keysym keycode down) := by
  cases down with
  | true =>
    have hpress := Leads.press (trackedSym pressedKeys keysym keycode, keycode)
      (downKeys pressedKeys codes)
    rw [← downKeys_press hcode] at hpress
    exact ⟨hpress, h.press hcode⟩
  | false =>
    by_cases hdown : lookupIndex keysym keycode ∈ pressedKeys
    · obtain ⟨hmem, herase⟩ := downKeys_release h hcode hdown
      have htrack : trackKey pressedKeys keysym keycode false =
          (pressedKeys.erase (lookupIndex keysym keycode),
            [.release (trackedSym pressedKeys keysym keycode, keycode)]) := if_pos hdown
      rw [htrack]
      have hrelease := Leads.release hmem
      rw [← herase] at hrelease
      exact ⟨hrelease, h.release⟩
    · have htrack : trackKey pressedKeys keysym keycode false = (pressedKeys, []) := if_neg hdown
      rw [htrack]
      exact ⟨Leads.nil _, h⟩

theorem key_of_mem_trackKey {down : Bool} {e : KeyCall}
    (he : e ∈ (trackKey pressedKeys keysym keycode down).2) :
    e.key = (trackedSym pressedKeys keysym keycode, keycode) := by
  unfold trackKey at he
  dsimp only at he
  split at he
  · obtain rfl := List.mem_singleton.mp he
    rfl
  · split at he
    · obtain rfl := List.mem_singleton.mp he
      rfl
    · cases he

/-! ## Inserted keys -/

theorem ne_shift_of_not_pressed (h : pressedKeys.isShiftPressed = false) {l s : UInt32}
    (hl : pressedKeys.lookup l = some s) : s ≠ XK_Shift_L := by
  rintro rfl
  have hentry := List.any_eq_false.mp h ⟨l, XK_Shift_L⟩ (AList.mem_lookup_iff.mp hl)
  exact hentry rfl

/-- The inserted Shift is not down, and the key it is inserted for is another one. -/
theorem withShift_leads {pressShift down : Bool} {held held' : Finset Key}
    (hshift : pressShift = true → pressedKeys.isShiftPressed = false ∧ keysym ≠ XK_Shift_L)
    (hheld : held = downKeys pressedKeys codes)
    (h : Leads held (trackKey pressedKeys keysym keycode down).2 held') :
    Leads held (withShift pressShift (trackKey pressedKeys keysym keycode down).2) held' := by
  unfold withShift
  split
  · rename_i hpress
    obtain ⟨hup, hne⟩ := hshift hpress
    refine Leads.around ?_ (fun e he => ?_) h
    · rw [hheld, mem_downKeys]
      rintro ⟨l, s, hl, hkey⟩
      exact ne_shift_of_not_pressed hup hl (Prod.mk.inj hkey).1
    · rw [key_of_mem_trackKey he]
      intro hkey
      have hsym := (Prod.mk.inj hkey).1
      unfold trackedSym at hsym
      cases hl : pressedKeys.lookup (lookupIndex keysym keycode) with
      | none =>
        rw [hl] at hsym
        exact hne hsym
      | some s =>
        rw [hl] at hsym
        exact ne_shift_of_not_pressed hup hl hsym
  · exact h

theorem fakeKey_leads {fake : Bool} {held : Finset Key} {sym : UInt32}
    (h : fake = true → (sym, 0) ∉ held) :
    Leads held (if fake then fakeKey sym else []) held := by
  split
  · exact Leads.tap (h (by assumption))
  · exact Leads.nil held

/-- When an event of the filtered stream does what it should: its index stands for its
keycode, and no lock key is inserted that is held without a keycode. -/
structure Distinct (env : KeyEnv) (pressedKeys : PressedKeys) (codes : Keycodes)
    (keysym keycode : UInt32) (down : Bool) : Prop where
  sameKeycode : SameKeycode pressedKeys codes (unshiftedTab keysym) keycode
  capsLock : needsCapsLock env pressedKeys keysym down = true →
    (XK_Caps_Lock, 0) ∉ downKeys pressedKeys codes
  numLock : needsNumLock env pressedKeys keysym down = true →
    (XK_Num_Lock, 0) ∉ downKeys pressedKeys codes

theorem pressKey_leads {env : KeyEnv} {down : Bool} (h : Indexed pressedKeys codes)
    (hdistinct : Distinct env pressedKeys codes keysym keycode down) :
    Leads (downKeys pressedKeys codes) (pressKey env pressedKeys keysym keycode down).2
        (downKeys (pressKey env pressedKeys keysym keycode down).1
          (recordCode codes (unshiftedTab keysym) keycode down)) ∧
      Indexed (pressKey env pressedKeys keysym keycode down).1
        (recordCode codes (unshiftedTab keysym) keycode down) := by
  obtain ⟨htrack, hindexed⟩ := trackKey_leads h hdistinct.sameKeycode down
  have hshift : (decide (keysym = XK_ISO_Left_Tab) && !pressedKeys.isShiftPressed) = true →
      pressedKeys.isShiftPressed = false ∧ unshiftedTab keysym ≠ XK_Shift_L := by
    intro hpress
    obtain ⟨htab, hup⟩ := Bool.and_eq_true_iff.mp hpress
    refine ⟨by simpa using hup, ?_⟩
    rw [unshiftedTab, if_pos (of_decide_eq_true htab)]
    decide
  have hcaps := fakeKey_leads hdistinct.capsLock
  have hnum := fakeKey_leads hdistinct.numLock
  exact ⟨(hcaps.append hnum).append (withShift_leads hshift rfl htrack), hindexed⟩

/-! ## Runs -/

structure KeyInput where
  env : KeyEnv
  keysym : UInt32
  keycode : UInt32
  down : Bool

/-- A connection, the keycodes of its keys and what the desktop was told. -/
structure KeySession where
  state : KeyState
  codes : Keycodes
  calls : List KeyCall

namespace KeySession

def init (created : Timeval) : KeySession := ⟨⟨∅, created⟩, fun _ => 0, []⟩

/-- The event gets through the filters. -/
def Passes (s : KeySession) (k : KeyInput) : Bool :=
  !refusesKey k.env s.state k.keysym k.keycode k.down &&
    !ignoresLock k.env (k.env.remapKey k.keysym)

def step (s : KeySession) (k : KeyInput) : KeySession :=
  let r := keyEvent k.env s.state k.keysym k.keycode k.down
  { state := r.1
    codes :=
      if s.Passes k then
        recordCode s.codes (unshiftedTab (k.env.remapKey k.keysym)) k.keycode k.down
      else s.codes
    calls := s.calls ++ r.2 }

def Clear (s : KeySession) (k : KeyInput) : Prop :=
  s.Passes k = true → Distinct k.env s.state.pressedKeys s.codes (k.env.remapKey k.keysym)
    k.keycode k.down

/-- No key is held that was pressed without a keycode. -/
def HasKeycodes (s : KeySession) : Prop :=
  ∀ l ∈ s.state.pressedKeys, s.codes l = l

/-- The calls so far have left down what is recorded. -/
structure InStep (s : KeySession) : Prop where
  indexed : Indexed s.state.pressedKeys s.codes
  leads : Leads ∅ s.calls (downKeys s.state.pressedKeys s.codes)

theorem InStep.step {s : KeySession} (h : s.InStep) {k : KeyInput} (hk : s.Clear k) :
    (s.step k).InStep := by
  unfold KeySession.step keyEvent
  unfold Clear at hk
  unfold Passes at hk ⊢
  by_cases hrefuse : refusesKey k.env s.state k.keysym k.keycode k.down = true
  · rw [if_pos hrefuse, hrefuse]
    simp only [Bool.not_true, Bool.false_and, Bool.false_eq_true, if_false, List.append_nil]
    exact h
  · rw [if_neg hrefuse, Bool.eq_false_iff.mpr hrefuse]
    rw [Bool.eq_false_iff.mpr hrefuse] at hk
    dsimp only
    by_cases hignore : ignoresLock k.env (k.env.remapKey k.keysym) = true
    · rw [if_pos hignore, hignore]
      simp only [Bool.not_true, Bool.and_false, Bool.false_eq_true, if_false, List.append_nil]
      exact ⟨h.indexed, h.leads⟩
    · rw [if_neg hignore, Bool.eq_false_iff.mpr hignore]
      rw [Bool.eq_false_iff.mpr hignore] at hk
      obtain ⟨hleads, hindexed⟩ := pressKey_leads h.indexed (hk rfl)
      exact ⟨hindexed, h.leads.append hleads⟩

theorem inStep_init (created : Timeval) : (init created).InStep :=
  ⟨fun _ _ hl => (nomatch hl), Leads.nil ∅⟩

end KeySession

/-- Every key is released as it was pressed, if the indices are keycodes. -/
theorem releasePressedKeys_leads (hcodes : ∀ l ∈ pressedKeys, codes l = l) :
    Leads (downKeys pressedKeys codes) (releasePressedKeys pressedKeys) ∅ := by
  have hperm := List.perm_insertionSort (fun e f : Sigma fun _ : UInt32 => UInt32 => e.1 ≤ f.1)
    pressedKeys.entries
  have hmap : releasePressedKeys pressedKeys = ((pressedKeys.entries.insertionSort
      fun e f => e.1 ≤ f.1).map fun e => (e.2, e.1)).map .release := List.map_map.symm
  rw [hmap]
  refine Leads.releaseAll ?_ ?_
  · refine List.Nodup.map (fun e f hef => ?_) (hperm.nodup_iff.mpr pressedKeys.nodupKeys.nodup)
    obtain ⟨l, s⟩ := e
    obtain ⟨l', s'⟩ := f
    obtain ⟨rfl, rfl⟩ := Prod.mk.inj hef
    rfl
  · rw [List.toFinset_eq_of_perm _ _ (hperm.map _)]
    refine congrArg List.toFinset (List.map_congr_left fun e he => ?_)
    have hmem : e.1 ∈ pressedKeys := List.mem_keys_of_mem he
    rw [hcodes e.1 hmem]

/-- **Keys are balanced.** While every event is clear, the desktop is not told to release
what is not down; and if all keys have keycodes when the connection is destroyed, each
one is released with the keysym and the keycode it was pressed with. -/
theorem keys_balanced (created : Timeval) {events : List KeyInput}
    (h : Guarded KeySession.step KeySession.Clear (KeySession.init created) events) :
    (∃ held, Leads ∅ (run KeySession.step (KeySession.init created) events).calls held) ∧
      ((run KeySession.step (KeySession.init created) events).HasKeycodes →
        Balanced ((run KeySession.step (KeySession.init created) events).calls ++
          releasePressedKeys
            (run KeySession.step (KeySession.init created) events).state.pressedKeys)) := by
  have hstep := run_invariant (I := KeySession.InStep)
    (fun s k hs hk => KeySession.InStep.step hs hk) (KeySession.inStep_init created) h
  exact ⟨⟨_, hstep.leads⟩, fun hcodes =>
    hstep.leads.append (releasePressedKeys_leads hcodes)⟩

/-- No filter applies. -/
def plainEnv : KeyEnv where
  accessKeyEvents := true
  acceptKeyEvents := true
  keyRateLimit := 0
  remapKey := id
  ledState := 0
  supportsLEDState := true
  now := ⟨1, 0⟩

/-- A key with a keycode is pressed, and the connection is destroyed. -/
theorem keys_balanced_keycode :
    (∃ held, Leads ∅ (run KeySession.step (KeySession.init ⟨0, 0⟩)
      [⟨plainEnv, XK_a, 38, true⟩]).calls held) ∧
      ((run KeySession.step (KeySession.init ⟨0, 0⟩) [⟨plainEnv, XK_a, 38, true⟩]).HasKeycodes →
        Balanced ((run KeySession.step (KeySession.init ⟨0, 0⟩)
            [⟨plainEnv, XK_a, 38, true⟩]).calls ++
          releasePressedKeys (run KeySession.step (KeySession.init ⟨0, 0⟩)
            [⟨plainEnv, XK_a, 38, true⟩]).state.pressedKeys)) :=
  keys_balanced ⟨0, 0⟩ ⟨fun _ => ⟨fun h => absurd h (by decide), by decide, by decide⟩, trivial⟩

/-- **A key without a keycode stays down.** The destructor takes the made-up index for
the keycode: it releases a key that is not down, and not the one that is. -/
theorem key_without_keycode_stuck :
    (run KeySession.step (KeySession.init ⟨0, 0⟩) [⟨plainEnv, XK_a, 0, true⟩]).calls ++
        releasePressedKeys (run KeySession.step (KeySession.init ⟨0, 0⟩)
          [⟨plainEnv, XK_a, 0, true⟩]).state.pressedKeys =
      [.press (XK_a, 0), .release (XK_a, 0x80000061)] ∧
    ¬ Balanced ((run KeySession.step (KeySession.init ⟨0, 0⟩) [⟨plainEnv, XK_a, 0, true⟩]).calls ++
        releasePressedKeys (run KeySession.step (KeySession.init ⟨0, 0⟩)
          [⟨plainEnv, XK_a, 0, true⟩]).state.pressedKeys) := by
  constructor
  · decide
  · decide

end KasmVNC.Rfb
