import KasmVNC.Rfb.SMsgReader
import Mathlib.Data.List.FinRange
import Mathlib.Logic.Function.Basic

/-!
# The encoders of video mode

In video mode each screen has its own encoder. `ScreenEncoderManager` keeps them in an array
with a place for each screen id; screens that are new, or have moved, get a new encoder, and
the places to be refreshed are listed whenever an encoder comes or goes. What an encoder does
is its codec's business: `render` succeeds or not, and the software encoder may write a skip
rectangle before it fails.
-/

namespace KasmVNC.Rfb

def Rect.overlaps (r s : Rect) : Prop :=
  r.tl.1 < s.br.1 ∧ r.tl.2 < s.br.2 ∧ r.br.1 > s.tl.1 ∧ r.br.2 > s.tl.2

instance (r s : Rect) : Decidable (r.overlaps s) := inferInstanceAs (Decidable (_ ∧ _))

/-- `screen_t`. An encoder is known by the screen that it was created for. -/
structure EncoderSlot where
  layout : Screen
  encoder : Option Screen
  dirty : Bool
deriving DecidableEq

def EncoderSlot.empty : EncoderSlot := ⟨⟨0, ⟨(0, 0), (0, 0)⟩, 0⟩, none, false⟩

/-- How `render` ends. -/
inductive Render
  | success
  | failure
  /-- It fails, and `writeSkipRect` has been called. -/
  | skip
deriving DecidableEq

/-- What happens to the encoders and on the connection, in order. -/
inductive VideoAct
  | render (encoder : Screen)
  | startRect (r : Rect)
  | packet (encoder : Screen)
  | endRect
  | skipRect (encoder : Screen)
deriving DecidableEq

instance lawfulBEq_place : LawfulBEq (Fin 8) := inferInstance

structure ScreenEncoderManager where
  head : Fin 8
  mask : BitVec 64
  screensToRefresh : List (Fin 8)
  screens : Fin 8 → EncoderSlot

/-- A screen has no place in the array. -/
inductive ScreensError
  | outOfRange
deriving DecidableEq

/-- What a frame finds. -/
structure VideoFrame where
  layout : ScreenSet
  /-- The bounding rectangle of the changed region. -/
  bounds : Rect
  /-- An encoder can be created for the screen. -/
  creates : Screen → Bool
  /-- How `render` ends for the encoder at each place. -/
  renders : Fin 8 → Render
  nonempty : ∀ c ∈ layout, c.dimensions.isEmpty = false
  nodup : (layout.map Screen.id).Nodup
  length_le : layout.length ≤ 8

namespace ScreenEncoderManager

def new : ScreenEncoderManager := ⟨0, 0, [], fun _ => .empty⟩

variable (s : ScreenEncoderManager)

/-- The loop goes through the bits of the mask that are set, from the lowest one. -/
def rebuildScreensToRefresh : ScreenEncoderManager :=
  { s with
    screensToRefresh :=
      (List.finRange 8).filter fun i => s.mask.getLsbD i && (s.screens i).dirty }

/-- `add_screen`, once there is an encoder. -/
def addScreen (index : Fin 8) (layout : Screen) : ScreenEncoderManager :=
  rebuildScreensToRefresh
    { s with
      mask := s.mask ||| .twoPow 64 index
      screens := Function.update s.screens index ⟨layout, some layout, true⟩
      head := min s.head index }

def removeScreen (index : Fin 8) : ScreenEncoderManager :=
  let s :=
    if (s.screens index).encoder.isSome then
      rebuildScreensToRefresh
        { s with
          screens := Function.update s.screens index { s.screens index with encoder := none }
          mask := s.mask &&& ~~~.twoPow 64 index }
    else s
  { s with screens := Function.update s.screens index .empty }

/-- Where a screen is kept: the check is for ids above the size of the array. -/
def place (id : BitVec 32) : ℕ := if id.toNat > 8 then 0 else id.toNat

/-- A screen that overlaps what has changed is dirty. -/
def touch (bounds : Rect) (index : Fin 8) (screen : Screen) : ScreenEncoderManager :=
  if screen.dimensions.overlaps bounds then
    { s with
      screens := Function.update s.screens index { s.screens index with dirty := true } }
  else s

/-- The body of the loop in `sync_layout`, for a screen with a place. -/
def syncScreen (bounds : Rect) (creates : Bool) (index : Fin 8) (screen : Screen) :
    Bool × ScreenEncoderManager :=
  if (s.screens index).layout.dimensions ≠ screen.dimensions then
    let s := s.removeScreen index
    if creates then (true, (s.addScreen index screen).touch bounds index screen) else (false, s)
  else (true, s.touch bounds index screen)

/-- `sync_layout` -/
def syncLayout (bounds : Rect) (creates : Screen → Bool) :
    ScreenEncoderManager → ScreenSet → Except ScreensError (Bool × ScreenEncoderManager)
  | s, [] => .ok (true, s)
  | s, screen :: layout =>
    if h : place screen.id < 8 then
      match s.syncScreen bounds (creates screen) ⟨place screen.id, h⟩ screen with
      | (false, s) => .ok (false, s)
      | (true, s) => syncLayout bounds creates s layout
    else .error .outOfRange

/-- `encoder->render(pb)` -/
def renderActs (encoder : Screen) (result : Render) : List VideoAct :=
  .render encoder :: if result = .skip then [.skipRect encoder] else []

/-- `send_frame`; it is only called for a screen with an encoder. -/
def sendFrame (screen : EncoderSlot) : List VideoAct :=
  match screen.encoder with
  | some encoder => [.startRect screen.layout.dimensions, .packet encoder, .endRect]
  | none => []

/-- The screens are rendered, in parallel. -/
def renderAll (renders : Fin 8 → Render) : ScreenEncoderManager × List VideoAct :=
  ({ s with
      screens := fun i =>
        if i ∈ s.screensToRefresh ∧ (s.screens i).encoder.isSome then
          { s.screens i with dirty := renders i = .success }
        else s.screens i },
    s.screensToRefresh.flatMap fun i =>
      match (s.screens i).encoder with
      | some encoder => renderActs encoder (renders i)
      | none => [])

/-- Those that were rendered are sent. -/
def sendAll : ScreenEncoderManager × List VideoAct :=
  ({ s with
      screens := fun i =>
        if i ∈ s.screensToRefresh then { s.screens i with dirty := false } else s.screens i },
    s.screensToRefresh.flatMap fun i =>
      if (s.screens i).dirty then sendFrame (s.screens i) else [])

/-- `writeRect` -/
def writeRect (renders : Fin 8 → Render) : ScreenEncoderManager × List VideoAct :=
  if s.screensToRefresh = [] then (s, [])
  else if s.screensToRefresh.length > 1 then
    let rendered := s.renderAll renders
    let sent := rendered.1.sendAll
    (sent.1, rendered.2 ++ sent.2)
  else
    match (s.screens s.head).encoder with
    | some encoder =>
      (s, renderActs encoder (renders s.head) ++
        if renders s.head = .success then sendFrame (s.screens s.head) else [])
    | none => (s, [])

/-- A frame: `sync_layout`, and `writeRect` unless an encoder could not be created. -/
def frame (f : VideoFrame) : Except ScreensError (ScreenEncoderManager × Option (List VideoAct)) :=
  match s.syncLayout f.bounds f.creates f.layout with
  | .error err => .error err
  | .ok (false, s) => .ok (s, none)
  | .ok (true, s) => .ok ((s.writeRect f.renders).1, some (s.writeRect f.renders).2)

def step (f : VideoFrame) : Except ScreensError ScreenEncoderManager :=
  (s.frame f).map (·.1)

/-! ## What the places hold -/

/-- The mask says where the encoders are, each was created for the screen at its place, and
only places with an encoder are listed. -/
structure Consistent : Prop where
  head_eq : s.head = 0
  mask_eq : ∀ i : Fin 8, s.mask.getLsbD i = (s.screens i).encoder.isSome
  encoder_eq : ∀ i, ∀ e ∈ (s.screens i).encoder, e = (s.screens i).layout
  empty_of_none : ∀ i, (s.screens i).encoder = none →
    (s.screens i).layout.dimensions.isEmpty = true
  listed_some : ∀ i ∈ s.screensToRefresh, (s.screens i).encoder.isSome = true
  nodup : s.screensToRefresh.Nodup

theorem consistent_new : new.Consistent where
  head_eq := rfl
  mask_eq := fun _ => BitVec.getLsbD_zero
  encoder_eq := fun _ _ he => nomatch he
  empty_of_none := fun _ _ => rfl
  listed_some := fun _ hi => absurd hi List.not_mem_nil
  nodup := List.nodup_nil

variable {s}

@[simp] theorem mem_rebuild {i : Fin 8} : i ∈ s.rebuildScreensToRefresh.screensToRefresh ↔
    s.mask.getLsbD i = true ∧ (s.screens i).dirty = true := by
  simp [rebuildScreensToRefresh]

theorem nodup_rebuild : s.rebuildScreensToRefresh.screensToRefresh.Nodup :=
  List.Nodup.filter _ (List.nodup_finRange 8)

theorem getLsbD_twoPow (index i : Fin 8) :
    (BitVec.twoPow 64 index).getLsbD i = decide (index = i) := by
  have hlt : (index : ℕ) < 64 := index.isLt.trans (by decide)
  rw [BitVec.getLsbD_twoPow, decide_eq_true hlt, Bool.true_and]
  exact decide_eq_decide.mpr Fin.ext_iff.symm

@[simp] theorem removeScreen_screens (index : Fin 8) :
    (s.removeScreen index).screens = Function.update s.screens index .empty := by
  unfold removeScreen
  split
  · exact Function.update_idem _ _ _
  · rfl

@[simp] theorem addScreen_screens (index : Fin 8) (screen : Screen) :
    (s.addScreen index screen).screens =
      Function.update s.screens index ⟨screen, some screen, true⟩ := rfl

theorem Consistent.getLsbD_of_mem (h : s.Consistent) {i : Fin 8} (hi : i ∈ s.screensToRefresh) :
    s.mask.getLsbD i = true :=
  (h.mask_eq i).trans (h.listed_some i hi)

/-- A place gets a new content. -/
theorem Consistent.replace (h : s.Consistent) {s' : ScreenEncoderManager} {index : Fin 8}
    {slot : EncoderSlot} (hscreens : s'.screens = Function.update s.screens index slot)
    (hhead : s'.head = 0)
    (hmask : ∀ i : Fin 8, s'.mask.getLsbD i =
      if i = index then slot.encoder.isSome else s.mask.getLsbD i)
    (hslot : ∀ e ∈ slot.encoder, e = slot.layout)
    (hnone : slot.encoder = none → slot.layout.dimensions.isEmpty = true)
    (hlisted : ∀ i ∈ s'.screensToRefresh, s'.mask.getLsbD i = true)
    (hnodup : s'.screensToRefresh.Nodup) : s'.Consistent := by
  have hcontent : ∀ i, s'.screens i = if i = index then slot else s.screens i := by
    intro i
    rw [hscreens]
    exact Function.update_apply _ _ _ _
  have hmask' : ∀ i : Fin 8, s'.mask.getLsbD i = (s'.screens i).encoder.isSome := by
    intro i
    rw [hmask, hcontent]
    split
    · rfl
    · exact h.mask_eq i
  refine ⟨hhead, hmask', fun i => ?_, fun i => ?_, fun i hi => ?_, hnodup⟩
  · rw [hcontent]
    split
    · exact hslot
    · exact h.encoder_eq i
  · rw [hcontent]
    split
    · exact hnone
    · exact h.empty_of_none i
  · exact (hmask' i).symm.trans (hlisted i hi)

theorem Consistent.removeScreen (h : s.Consistent) (index : Fin 8) :
    (s.removeScreen index).Consistent := by
  refine h.replace (removeScreen_screens index) ?_ ?_ (fun _ he => nomatch he) (fun _ => rfl) ?_ ?_
  · unfold ScreenEncoderManager.removeScreen
    split <;> exact h.head_eq
  · intro i
    unfold ScreenEncoderManager.removeScreen
    split
    · have hlt : (i : ℕ) < 64 := i.isLt.trans (by decide)
      show (s.mask &&& ~~~.twoPow 64 index).getLsbD i = _
      rw [BitVec.getLsbD_and, BitVec.getLsbD_not, getLsbD_twoPow, decide_eq_true hlt]
      by_cases hi : i = index
      · simp [hi, EncoderSlot.empty]
      · simp [hi, Ne.symm hi]
    · next hsome =>
        show s.mask.getLsbD i = _
        by_cases hi : i = index
        · rw [if_pos hi, hi, h.mask_eq, Bool.eq_false_iff.mpr hsome]
          rfl
        · rw [if_neg hi]
  · unfold ScreenEncoderManager.removeScreen
    split
    · exact fun i hi => (mem_rebuild.mp hi).1
    · exact fun i hi => h.getLsbD_of_mem hi
  · unfold ScreenEncoderManager.removeScreen
    split
    · exact nodup_rebuild
    · exact h.nodup

theorem Consistent.addScreen (h : s.Consistent) (index : Fin 8) (screen : Screen) :
    (s.addScreen index screen).Consistent := by
  refine h.replace (addScreen_screens index screen) ?_ ?_ (fun e he => (Option.some.inj he).symm)
    (fun hnone => absurd hnone (Option.some_ne_none screen)) (fun i hi => (mem_rebuild.mp hi).1)
    nodup_rebuild
  · show min s.head index = 0
    rw [h.head_eq]
    exact Fin.le_zero_iff.mp (min_le_left _ _)
  · intro i
    show (s.mask ||| .twoPow 64 index).getLsbD i = _
    rw [BitVec.getLsbD_or, getLsbD_twoPow]
    by_cases hi : i = index
    · simp [hi]
    · simp [hi, Ne.symm hi]

/-- Flags may change. -/
theorem Consistent.dirty (h : s.Consistent) {s' : ScreenEncoderManager}
    (hscreens : ∀ i, (s'.screens i).layout = (s.screens i).layout ∧
      (s'.screens i).encoder = (s.screens i).encoder)
    (hhead : s'.head = s.head) (hmask : s'.mask = s.mask)
    (hlist : s'.screensToRefresh = s.screensToRefresh) : s'.Consistent := by
  refine ⟨hhead.trans h.head_eq, fun i => ?_, fun i => ?_, fun i => ?_, ?_, hlist ▸ h.nodup⟩
  · rw [hmask, (hscreens i).2, h.mask_eq]
  · rw [(hscreens i).1, (hscreens i).2]
    exact h.encoder_eq i
  · rw [(hscreens i).1, (hscreens i).2]
    exact h.empty_of_none i
  · rw [hlist]
    intro i hi
    rw [(hscreens i).2]
    exact h.listed_some i hi

/-! ## One screen of the layout -/

/-- The places that are listed when an encoder has come. -/
theorem mem_addScreen (h : s.Consistent) {index j : Fin 8} {screen : Screen} :
    j ∈ (s.addScreen index screen).screensToRefresh ↔
      j = index ∨ (s.screens j).encoder.isSome = true ∧ (s.screens j).dirty = true := by
  have hlisted : j ∈ (s.addScreen index screen).screensToRefresh ↔
      (s.addScreen index screen).mask.getLsbD j = true ∧
        ((s.addScreen index screen).screens j).dirty = true := mem_rebuild
  rw [hlisted, (h.addScreen index screen).mask_eq, addScreen_screens, Function.update_apply]
  by_cases hj : j = index
  · simp [hj]
  · simp [hj]

variable (s) in
/-- What the place of a screen holds when its encoder is there. -/
def synced (bounds : Rect) (index : Fin 8) (screen : Screen) : EncoderSlot :=
  if (s.screens index).layout.dimensions ≠ screen.dimensions then ⟨screen, some screen, true⟩
  else
    { s.screens index with
      dirty := (s.screens index).dirty || decide (screen.dimensions.overlaps bounds) }

theorem touch_screens (bounds : Rect) (index : Fin 8) (screen : Screen) (j : Fin 8) :
    (s.touch bounds index screen).screens j =
      if j = index then
        { s.screens index with
          dirty := (s.screens index).dirty || decide (screen.dimensions.overlaps bounds) }
      else s.screens j := by
  unfold touch
  split
  · next hover =>
      rw [decide_eq_true hover, Bool.or_true]
      exact Function.update_apply _ _ _ _
  · next hover =>
      rw [decide_eq_false hover, Bool.or_false]
      split
      · next hj => rw [hj]
      · rfl

@[simp] theorem touch_screensToRefresh (bounds : Rect) (index : Fin 8) (screen : Screen) :
    (s.touch bounds index screen).screensToRefresh = s.screensToRefresh := by
  unfold touch
  split <;> rfl

theorem Consistent.touch (h : s.Consistent) (bounds : Rect) (index : Fin 8) (screen : Screen) :
    (s.touch bounds index screen).Consistent := by
  refine h.dirty (fun i => ?_) ?_ ?_ (touch_screensToRefresh bounds index screen)
  · rw [touch_screens]
    split
    · next hi =>
        rw [hi]
        exact ⟨rfl, rfl⟩
    · exact ⟨rfl, rfl⟩
  · unfold ScreenEncoderManager.touch
    split <;> rfl
  · unfold ScreenEncoderManager.touch
    split <;> rfl

/-- What one screen of the layout does to the places and to the list. -/
theorem syncScreen_spec (h : s.Consistent) (bounds : Rect) (creates : Bool) (index : Fin 8)
    (screen : Screen) :
    let r := s.syncScreen bounds creates index screen
    r.2.Consistent ∧ (r.1 = true →
      (∀ j, r.2.screens j = if j = index then s.synced bounds index screen else s.screens j) ∧
      ∀ j, j ∈ r.2.screensToRefresh ↔
        if (s.screens index).layout.dimensions ≠ screen.dimensions then
          j = index ∨ (s.screens j).encoder.isSome = true ∧ (s.screens j).dirty = true
        else j ∈ s.screensToRefresh) := by
  unfold syncScreen synced
  by_cases hnew : (s.screens index).layout.dimensions ≠ screen.dimensions
  · rw [if_pos hnew, if_pos hnew]
    have hremoved := h.removeScreen index
    have hother : ∀ j, j ≠ index → (s.removeScreen index).screens j = s.screens j := by
      intro j hj
      rw [removeScreen_screens, Function.update_of_ne hj]
    cases creates with
    | false => exact ⟨hremoved, fun hfalse => nomatch hfalse⟩
    | true =>
      refine ⟨(hremoved.addScreen index screen).touch bounds index screen, fun _ => ⟨?_, ?_⟩⟩
      · intro j
        show (((s.removeScreen index).addScreen index screen).touch bounds index screen).screens j
          = _
        rw [touch_screens, addScreen_screens, Function.update_self, Bool.true_or]
        split
        · rfl
        · next hj => rw [Function.update_of_ne hj, hother j hj]
      · intro j
        rw [if_pos hnew]
        show j ∈ (((s.removeScreen index).addScreen index screen).touch bounds index
          screen).screensToRefresh ↔ _
        rw [touch_screensToRefresh, mem_addScreen hremoved]
        by_cases hj : j = index
        · simp [hj]
        · rw [hother j hj]
  · rw [if_neg hnew, if_neg hnew]
    refine ⟨h.touch bounds index screen, fun _ => ⟨touch_screens bounds index screen, fun j => ?_⟩⟩
    rw [if_neg hnew]
    show j ∈ (s.touch bounds index screen).screensToRefresh ↔ _
    rw [touch_screensToRefresh]

/-! ## Writing -/

theorem Consistent.writeRect (h : s.Consistent) (renders : Fin 8 → Render) :
    (s.writeRect renders).1.Consistent := by
  unfold ScreenEncoderManager.writeRect
  split
  · exact h
  · split
    · refine h.dirty (fun i => ?_) rfl rfl rfl
      simp only [renderAll, sendAll]
      split_ifs <;> exact ⟨rfl, rfl⟩
    · split <;> exact h

/-- The encoder of a place that is listed. -/
theorem Consistent.encoder_of_mem (h : s.Consistent) {i : Fin 8} (hi : i ∈ s.screensToRefresh) :
    (s.screens i).encoder = some (s.screens i).layout := by
  obtain ⟨e, he⟩ := Option.isSome_iff_exists.mp (h.listed_some i hi)
  rw [he, ← h.encoder_eq i e he]

/-- The rectangle of a screen. -/
def frameActs (screen : Screen) : List VideoAct :=
  [.startRect screen.dimensions, .packet screen, .endRect]

theorem flatMap_filter_eq {α β : Type*} (p : α → Bool) (f : α → List β) : ∀ as : List α,
    (as.filter p).flatMap f = as.flatMap fun a => if p a then f a else []
  | [] => rfl
  | a :: as => by
    rw [List.filter_cons, List.flatMap_cons, ← flatMap_filter_eq p f as]
    split
    · exact List.flatMap_cons
    · exact (List.nil_append _).symm

theorem Consistent.sendFrame_of_mem (h : s.Consistent) {i : Fin 8} (hi : i ∈ s.screensToRefresh)
    (dirty : Bool) : sendFrame { s.screens i with dirty } = frameActs (s.screens i).layout := by
  simp only [sendFrame, h.encoder_of_mem hi, frameActs]

theorem renderActs_of_ne_skip {result : Render} (hskip : result ≠ .skip) (encoder : Screen) :
    renderActs encoder result = [.render encoder] := by
  unfold renderActs
  rw [if_neg hskip]

/-- What is written if no skip rectangle is, and a list of one screen has the head: the
screens that are listed are rendered, and those for which it succeeds are sent. -/
theorem writeRect_acts (h : s.Consistent) {renders : Fin 8 → Render}
    (hskip : ∀ i ∈ s.screensToRefresh, renders i ≠ .skip)
    (hfirst : ∀ i, s.screensToRefresh = [i] → i = 0) :
    (s.writeRect renders).2 =
      s.screensToRefresh.map (fun i => .render (s.screens i).layout) ++
        (s.screensToRefresh.filter (renders · = .success)).flatMap
          fun i => frameActs (s.screens i).layout := by
  unfold writeRect
  split
  · next hnone =>
      rw [hnone]
      rfl
  · next hsome =>
      split
      · simp only [renderAll, sendAll]
        congr 1
        · rw [List.map_eq_flatMap]
          refine List.flatMap_congr fun i hi => ?_
          rw [h.encoder_of_mem hi]
          exact renderActs_of_ne_skip (hskip i hi) _
        · rw [flatMap_filter_eq]
          refine List.flatMap_congr fun i hi => ?_
          have hrendered : i ∈ s.screensToRefresh ∧ (s.screens i).encoder.isSome = true :=
            ⟨hi, h.listed_some i hi⟩
          simp only [if_pos hrendered, h.sendFrame_of_mem hi]
      · next hlength =>
          have hone : s.screensToRefresh.length = 1 :=
            le_antisymm (not_lt.mp hlength) (List.length_pos_of_ne_nil hsome)
          obtain ⟨i, hi⟩ := List.length_eq_one_iff.mp hone
          have hmem : i ∈ s.screensToRefresh := hi ▸ List.mem_singleton_self i
          -- the list of one screen is taken for the screen at the head
          obtain rfl : i = 0 := hfirst i hi
          rw [h.head_eq, h.encoder_of_mem hmem, hi]
          dsimp only
          rw [renderActs_of_ne_skip (hskip 0 hmem), List.map_singleton, List.filter_singleton]
          by_cases hsuccess : renders 0 = .success
          · simp [hsuccess, ← h.sendFrame_of_mem hmem (s.screens 0).dirty]
          · simp [hsuccess]

end ScreenEncoderManager

end KasmVNC.Rfb
