import KasmVNC.Lib.Actions
import KasmVNC.Lib.Preference
import KasmVNC.Rfb.SMsgReader
import Mathlib.Data.Finmap

/-!
# Screens on the outputs of an X server

A screen layout asked for by a client is put on the RandR outputs of the X server. The server
has no ids for screens, so a map beside it says which output shows which screen; outputs are
found for new screens and those without a screen are turned off.

The `vncRandR*` functions are those of a server that does what it is asked: a mode or a size
that has been checked can be set. Outputs are named by their ids instead of by their place in
the server's list.
-/

namespace KasmVNC.Unix

open KasmVNC.Lib KasmVNC.Rfb

/-! ## The X server -/

abbrev OutputId := BitVec 32

structure Output where
  /-- What the output shows of the framebuffer, when it is enabled. -/
  dimensions : Option Rect
  usable : Bool
  connected : Bool
  /-- The modes it has or can be given. -/
  mode : ℤ → ℤ → Bool

structure XScreen where
  width : ℤ
  height : ℤ
  /-- The ids of the outputs, in the order of the server's list. -/
  outputs : List OutputId
  nodup : outputs.Nodup
  output : OutputId → Output
  /-- Whether a CRTC feeds more than one output. -/
  clones : Bool

/-- What servers differ in. -/
structure RandrGlue where
  vncRandRIsValidScreenSize : ℤ → ℤ → Bool
  vncRandRCanCreateOutputs : XScreen → ℕ → Bool
  /-- The ids of the outputs that are created on request. -/
  created : XScreen → ℕ → List OutputId
  length_created (x : XScreen) (n : ℕ) :
    vncRandRCanCreateOutputs x n = true → (created x n).length = n
  /-- They are new ids. -/
  nodup_created (x : XScreen) (n : ℕ) : (x.outputs ++ created x n).Nodup
  /-- New outputs are disabled, and have a CRTC of their own. -/
  connected : OutputId → Bool
  mode : OutputId → ℤ → ℤ → Bool

namespace XScreen

def vncRandRGetOutputCount (x : XScreen) : ℕ := x.outputs.length

def vncRandRIsOutputEnabled (x : XScreen) (o : OutputId) : Bool := (x.output o).dimensions.isSome

def vncRandRIsOutputUsable (x : XScreen) (o : OutputId) : Bool := (x.output o).usable

def vncRandRIsOutputConnected (x : XScreen) (o : OutputId) : Bool := (x.output o).connected

def vncRandRCheckOutputMode (x : XScreen) (o : OutputId) (width height : ℤ) : Bool :=
  (x.output o).mode width height

def vncRandRGetAvailableOutputs (x : XScreen) : ℕ := x.outputs.countP x.vncRandRIsOutputUsable

def vncRandRHasOutputClones (x : XScreen) : Bool := x.clones

def setDimensions (x : XScreen) (o : OutputId) (dimensions : Option Rect) : XScreen :=
  { x with output := Function.update x.output o { x.output o with dimensions } }

def vncRandRDisableOutput (x : XScreen) (o : OutputId) : XScreen := x.setDimensions o none

def vncRandRReconfigureOutput (x : XScreen) (o : OutputId) (left top width height : ℤ) : XScreen :=
  x.setDimensions o (some (Rect.ofXYWH left top width height))

def vncRandRResizeScreen (x : XScreen) (width height : ℤ) : XScreen :=
  { x with width, height }

def vncRandRCreateOutputs (glue : RandrGlue) (x : XScreen) (n : ℕ) : XScreen :=
  { x with
    outputs := x.outputs ++ glue.created x n
    nodup := glue.nodup_created x n
    output := fun o =>
      if o ∈ glue.created x n then ⟨none, true, glue.connected o, glue.mode o⟩ else x.output o }

end XScreen

theorem nodup_append_nil (x : XScreen) : (x.outputs ++ []).Nodup := by
  rw [List.append_nil]
  exact x.nodup

/-- A server with the outputs it has, and any size and mode. -/
def fixedGlue : RandrGlue where
  vncRandRIsValidScreenSize := fun _ _ => true
  vncRandRCanCreateOutputs := fun _ _ => false
  created := fun _ _ => []
  length_created := fun _ _ h => Bool.noConfusion h
  nodup_created := fun x _ => nodup_append_nil x
  connected := fun _ => false
  mode := fun _ _ _ => true

/-! ## The map of screen ids -/

abbrev OutputIdMap := Finmap fun _ : OutputId => BitVec 32

/-- The search through the map's entries for an id. -/
def OutputIdMap.hasId (m : OutputIdMap) (id : BitVec 32) : Bool :=
  decide (0 < m.entries.countP fun e => e.2 = id)

theorem OutputIdMap.hasId_iff {m : OutputIdMap} {id : BitVec 32} :
    m.hasId id = true ↔ ∃ o, m.lookup o = some id := by
  simp only [hasId, decide_eq_true_eq, Multiset.countP_pos, Finmap.lookup_eq_some_iff]
  constructor
  · rintro ⟨⟨o, id'⟩, he, rfl⟩
    exact ⟨o, he⟩
  · rintro ⟨o, he⟩
    exact ⟨⟨o, id⟩, he, rfl⟩

/-! ## Setting a layout -/

inductive Result
  | resultSuccess
  | resultProhibited
  | resultInvalid
deriving DecidableEq

/-- The loop of `ScreenSet::validate`, with the ids it has seen. -/
def validateScreens (fbRect : Rect) : List (BitVec 32) → ScreenSet → Bool
  | _, [] => true
  | seen, screen :: screens =>
    if screen.dimensions.isEmpty then false
    else if ¬ screen.dimensions.enclosedBy fbRect then false
    else if seen.contains screen.id then false
    else validateScreens fbRect (screen.id :: seen) screens

/-- `ScreenSet::validate` -/
def validate (layout : ScreenSet) (fbWidth fbHeight : ℤ) : Bool :=
  if layout.isEmpty then false
  else if layout.length > 255 then false
  else validateScreens (Rect.ofXYWH 0 0 fbWidth fbHeight) [] layout

theorem nodup_of_validateScreens {fbRect : Rect} {seen : List (BitVec 32)} {layout : ScreenSet}
    (h : validateScreens fbRect seen layout = true) :
    (layout.map Screen.id).Nodup ∧ ∀ screen ∈ layout, screen.id ∉ seen := by
  induction layout generalizing seen with
  | nil => simp
  | cons screen screens ih =>
    rw [validateScreens] at h
    split at h
    · cases h
    split at h
    · cases h
    split at h
    · cases h
    · rename_i hseen
      obtain ⟨hnodup, hnotMem⟩ := ih h
      constructor
      · rw [List.map_cons, List.nodup_cons]
        refine ⟨fun hmem => ?_, hnodup⟩
        obtain ⟨other, hother, hid⟩ := List.mem_map.mp hmem
        exact hnotMem other hother (hid ▸ List.mem_cons_self)
      · intro other hother
        rcases List.mem_cons.mp hother with rfl | hother
        · simpa using hseen
        · exact fun hmem => hnotMem other hother (List.mem_cons_of_mem _ hmem)

/-- A valid layout has at least one screen, and no id twice. -/
theorem nodup_of_validate {layout : ScreenSet} {fbWidth fbHeight : ℤ}
    (h : validate layout fbWidth fbHeight = true) :
    layout ≠ [] ∧ (layout.map Screen.id).Nodup := by
  rw [validate] at h
  split at h
  · cases h
  · rename_i hempty
    split at h
    · cases h
    · exact ⟨fun hnil => hempty (hnil ▸ rfl), (nodup_of_validateScreens h).1⟩

/-- What `XserverDesktop` works on. -/
structure Desktop where
  x : XScreen
  outputIdMap : OutputIdMap

/-- One call, with the outputs it has disabled for the time being. -/
structure LayoutPass extends Desktop where
  disabledOutputs : List OutputId

section

variable (glue : RandrGlue) (dryrun : Bool) (fbWidth fbHeight : ℤ) (layout : ScreenSet)

def createOutputs (p : LayoutPass) : Throwing LayoutPass Result :=
  if layout.length > p.x.vncRandRGetAvailableOutputs then
    let missing := layout.length - p.x.vncRandRGetAvailableOutputs
    if !glue.vncRandRCanCreateOutputs p.x missing then .error (p, .resultInvalid)
    else if dryrun then .ok p
    else .ok { p with x := p.x.vncRandRCreateOutputs glue missing }
  else .ok p

/-- The loop of `ResizeScreen`. -/
def disableLarge : List OutputId → LayoutPass → LayoutPass
  | [], p => p
  | o :: os, p =>
    match (p.x.output o).dimensions with
    | none => disableLarge os p
    | some r =>
      if r.tl.1 + r.width > fbWidth ∨ r.tl.2 + r.height > fbHeight then
        if dryrun then disableLarge os p
        else disableLarge os
          { p with
            x := p.x.vncRandRDisableOutput o
            disabledOutputs := o :: p.disabledOutputs }
      else disableLarge os p

/-- `ResizeScreen`, when the size is another one. -/
def resizeScreen (p : LayoutPass) : Throwing LayoutPass Result :=
  if fbWidth ≠ p.x.width ∨ fbHeight ≠ p.x.height then
    let p := disableLarge dryrun fbWidth fbHeight p.x.outputs p
    if !glue.vncRandRIsValidScreenSize fbWidth fbHeight then .error (p, .resultInvalid)
    else if dryrun then .ok p
    else .ok { p with x := p.x.vncRandRResizeScreen fbWidth fbHeight }
  else .ok p

/-- "Reconfigure all known outputs" -/
def reconfigureOutputs : List OutputId → LayoutPass → Throwing LayoutPass Result
  | [], p => .ok p
  | o :: os, p =>
    match p.outputIdMap.lookup o with
    | none => reconfigureOutputs os p
    | some id =>
      match layout.find? (·.id == id) with
      | none =>
        reconfigureOutputs os
          { p with
            x := p.x.vncRandRDisableOutput o
            outputIdMap := p.outputIdMap.erase o }
      | some screen =>
        let r := screen.dimensions
        if !p.x.vncRandRIsOutputUsable o then .error (p, .resultInvalid)
        else if !p.x.vncRandRCheckOutputMode o r.width r.height then
          .error (p, .resultInvalid)
        else if dryrun then reconfigureOutputs os p
        else reconfigureOutputs os
          { p with
            x := p.x.vncRandRReconfigureOutput o r.tl.1 r.tl.2 r.width r.height }

/-- `getPreferredScreenOutput` -/
def getPreferredScreenOutput (p : LayoutPass) : Option OutputId :=
  let free := p.x.outputs.filter fun o =>
    !decide (o ∈ p.outputIdMap) && p.x.vncRandRIsOutputUsable o
  let firstDisabled := free.find? (p.disabledOutputs.contains ·)
  let firstEnabled := free.find? p.x.vncRandRIsOutputEnabled
  let firstConnected := free.find? p.x.vncRandRIsOutputConnected
  let firstUsable := free.head?
  firstEnabled.or (firstDisabled.or (firstConnected.or firstUsable))

/-- "Allocate new outputs for new screens" -/
def allocateOutputs : ScreenSet → LayoutPass → Throwing LayoutPass Result
  | [], p => .ok p
  | screen :: screens, p =>
    if p.outputIdMap.hasId screen.id then allocateOutputs screens p
    else
      match getPreferredScreenOutput p with
      | none => .error (p, .resultInvalid)
      | some o =>
        let p := { p with outputIdMap := p.outputIdMap.insert o screen.id }
        let r := screen.dimensions
        if !p.x.vncRandRIsOutputUsable o then .error (p, .resultInvalid)
        else if !p.x.vncRandRCheckOutputMode o r.width r.height then
          .error (p, .resultInvalid)
        else if dryrun then allocateOutputs screens p
        else allocateOutputs screens
          { p with
            x := p.x.vncRandRReconfigureOutput o r.tl.1 r.tl.2 r.width r.height }

/-- "Turn off unused outputs" -/
def turnOffUnused : List OutputId → LayoutPass → LayoutPass
  | [], p => p
  | o :: os, p =>
    if o ∈ p.outputIdMap then turnOffUnused os p
    else if !p.x.vncRandRIsOutputEnabled o then turnOffUnused os p
    else turnOffUnused os { p with x := p.x.vncRandRDisableOutput o }

/-- `_setScreenLayout` -/
def changeScreenLayout (d : Desktop) : Throwing LayoutPass Result :=
  let p : LayoutPass := { d with disabledOutputs := [] }
  if p.x.vncRandRGetOutputCount = 0 then .error (p, .resultProhibited)
  else if p.x.vncRandRHasOutputClones then .error (p, .resultInvalid)
  else
    (createOutputs glue dryrun layout p).andThen fun p =>
    (resizeScreen glue dryrun fbWidth fbHeight p).andThen fun p =>
    (reconfigureOutputs dryrun layout p.x.outputs p).andThen fun p =>
    (allocateOutputs dryrun layout p).andThen fun p =>
    .ok (turnOffUnused p.x.outputs p)

/-- The result of a call, and what it leaves behind. -/
def outcome : Throwing LayoutPass Result → Result × Desktop
  | .ok p => (.resultSuccess, p.toDesktop)
  | .error (p, result) => (result, p.toDesktop)

def setScreenLayout (d : Desktop) : Result × Desktop :=
  outcome (changeScreenLayout glue false fbWidth fbHeight layout d)

/-- The dry run, on a copy of the map. -/
def tryScreenLayout (d : Desktop) : Result × Desktop :=
  let (result, d') := outcome (changeScreenLayout glue true fbWidth fbHeight layout d)
  (result, { d' with outputIdMap := d.outputIdMap })

end

end KasmVNC.Unix
