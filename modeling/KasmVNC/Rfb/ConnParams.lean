import KasmVNC.Rfb.Encodings
import KasmVNC.Rfb.SMsgReader

/-!
# What a client supports

`rfb::ConnParams`: the capabilities a client announces with SetEncodings, and
the parts of the desktop state a pseudo-rectangle is filled from. Each
SetEncodings message replaces the set of encodings. Some of the capability
booleans start over with it, others stay once they are set.
-/

namespace KasmVNC.Rfb

/-- `rfb::Cursor` without its pixels. -/
structure Cursor where
  width : ℕ
  height : ℕ
  hotspot : Point
deriving DecidableEq, Repr

/-- The cursor that blanks out the client's own. -/
def emptyCursor : Cursor := ⟨0, 0, (0, 0)⟩

abbrev ledUnknown : BitVec 32 := 0xFFFFFFFF

structure ConnParams where
  width : ℕ := 0
  height : ℕ := 0
  screenLayout : ScreenSet := []
  cursor : Cursor := emptyCursor
  cursorPos : Point := (0, 0)
  name : String := ""
  ledState : BitVec 32 := ledUnknown
  encodings : List ℤ := [encodingRaw]
  useCopyRect : Bool := false
  supportsLocalCursor : Bool := false
  supportsLocalXCursor : Bool := false
  supportsLocalCursorWithAlpha : Bool := false
  supportsVMWareCursor : Bool := false
  supportsCursorPosition : Bool := false
  supportsDesktopResize : Bool := false
  supportsExtendedDesktopSize : Bool := false
  supportsDesktopRename : Bool := false
  supportsLastRect : Bool := false
  supportsLEDState : Bool := false
  supportsQEMUKeyEvent : Bool := false
  supportsWEBP : Bool := false
  supportsQOI : Bool := false
  supportsFence : Bool := false
  supportsContinuousUpdates : Bool := false
  supportsUdp : Bool := false
deriving DecidableEq

namespace ConnParams

def supportsEncoding (cp : ConnParams) (encoding : ℤ) : Bool := encoding ∈ cp.encodings

/-- The body of the loop in `setEncodings`, for one encoding. -/
def addEncoding (e : ℤ) (cp : ConnParams) : ConnParams :=
  { cp with
    useCopyRect := cp.useCopyRect || e = encodingCopyRect
    supportsLocalCursor := cp.supportsLocalCursor || e = pseudoEncodingCursor
    supportsLocalXCursor := cp.supportsLocalXCursor || e = pseudoEncodingXCursor
    supportsLocalCursorWithAlpha :=
      cp.supportsLocalCursorWithAlpha || e = pseudoEncodingCursorWithAlpha
    supportsVMWareCursor := cp.supportsVMWareCursor || e = pseudoEncodingVMwareCursor
    supportsDesktopResize := cp.supportsDesktopResize || e = pseudoEncodingDesktopSize
    supportsExtendedDesktopSize :=
      cp.supportsExtendedDesktopSize || e = pseudoEncodingExtendedDesktopSize
    supportsCursorPosition :=
      cp.supportsCursorPosition || e = pseudoEncodingVMwareCursorPosition
    supportsDesktopRename := cp.supportsDesktopRename || e = pseudoEncodingDesktopName
    supportsLastRect := cp.supportsLastRect || e = pseudoEncodingLastRect
    supportsLEDState := cp.supportsLEDState || e = pseudoEncodingLEDState
    supportsQEMUKeyEvent := cp.supportsQEMUKeyEvent || e = pseudoEncodingQEMUKeyEvent
    supportsWEBP := cp.supportsWEBP || e = pseudoEncodingWEBP
    supportsQOI := cp.supportsQOI || e = pseudoEncodingQOI
    supportsFence := cp.supportsFence || e = pseudoEncodingFence
    supportsContinuousUpdates :=
      cp.supportsContinuousUpdates || e = pseudoEncodingContinuousUpdates
    encodings := if e > 0 then e :: cp.encodings else cp.encodings }

/-- What `setEncodings` starts from: cursor position, desktop rename, LED state,
fences and continuous updates are not among the booleans it resets. -/
def resetEncodings (cp : ConnParams) : ConnParams :=
  { cp with
    useCopyRect := false
    supportsLocalCursor := false
    supportsLocalCursorWithAlpha := false
    supportsVMWareCursor := false
    supportsDesktopResize := false
    supportsExtendedDesktopSize := false
    supportsLocalXCursor := false
    supportsLastRect := false
    supportsQEMUKeyEvent := false
    supportsWEBP := false
    supportsQOI := false
    encodings := [encodingRaw] }

/-- `ConnParams::setEncodings`; `watermarkImage` is `DLP_WatermarkImage[0] ≠ 0`.
The loop runs from the last encoding to the first. -/
def setEncodings (watermarkImage : Bool) (encodings : List ℤ) (cp : ConnParams) : ConnParams :=
  let cp := encodings.foldr addEncoding cp.resetEncodings
  { cp with useCopyRect := cp.useCopyRect && !cp.supportsQOI && !watermarkImage }

/-! ## What is left after SetEncodings -/

section SetEncodings

variable (watermarkImage : Bool) (encodings : List ℤ) (cp : ConnParams)

/-- A boolean that each matching encoding sets, at the end of the loop. -/
theorem foldr_flag (get : ConnParams → Bool) (code : ℤ)
    (hadd : ∀ e cp, get (addEncoding e cp) = (get cp || decide (e = code))) (cp : ConnParams) :
    ∀ encodings : List ℤ,
      get (encodings.foldr addEncoding cp) = (get cp || decide (code ∈ encodings))
  | [] => by simp
  | e :: es => by
    rw [List.foldr_cons, hadd, foldr_flag get code hadd cp es]
    by_cases hcode : e = code
    · simp [hcode]
    · simp [hcode, Ne.symm hcode]

/-- A member the loop leaves alone. -/
theorem foldr_same {α : Type*} (get : ConnParams → α)
    (hadd : ∀ e cp, get (addEncoding e cp) = get cp) (cp : ConnParams) :
    ∀ encodings : List ℤ, get (encodings.foldr addEncoding cp) = get cp
  | [] => rfl
  | e :: es => by rw [List.foldr_cons, hadd, foldr_same get hadd cp es]

theorem mem_foldr_encodings (code : ℤ) (cp : ConnParams) : ∀ encodings : List ℤ,
    code ∈ (encodings.foldr addEncoding cp).encodings ↔
      code ∈ cp.encodings ∨ (0 < code ∧ code ∈ encodings)
  | [] => by simp
  | e :: es => by
    have ih := mem_foldr_encodings code cp es
    rw [List.foldr_cons]
    by_cases hpos : e > 0
    · simp only [addEncoding, if_pos hpos, List.mem_cons, ih]
      by_cases hcode : code = e
      · subst hcode
        simp [hpos]
      · simp [hcode]
    · simp only [addEncoding, if_neg hpos, List.mem_cons, ih]
      by_cases hcode : code = e
      · subst hcode
        simp [hpos]
      · simp [hcode]

@[simp] theorem setEncodings_localCursor :
    (cp.setEncodings watermarkImage encodings).supportsLocalCursor =
      decide (pseudoEncodingCursor ∈ encodings) :=
  (foldr_flag (·.supportsLocalCursor) _ (fun _ _ => rfl) _ _).trans (Bool.false_or _)

@[simp] theorem setEncodings_localXCursor :
    (cp.setEncodings watermarkImage encodings).supportsLocalXCursor =
      decide (pseudoEncodingXCursor ∈ encodings) :=
  (foldr_flag (·.supportsLocalXCursor) _ (fun _ _ => rfl) _ _).trans (Bool.false_or _)

@[simp] theorem setEncodings_localCursorWithAlpha :
    (cp.setEncodings watermarkImage encodings).supportsLocalCursorWithAlpha =
      decide (pseudoEncodingCursorWithAlpha ∈ encodings) :=
  (foldr_flag (·.supportsLocalCursorWithAlpha) _ (fun _ _ => rfl) _ _).trans (Bool.false_or _)

@[simp] theorem setEncodings_vmwareCursor :
    (cp.setEncodings watermarkImage encodings).supportsVMWareCursor =
      decide (pseudoEncodingVMwareCursor ∈ encodings) :=
  (foldr_flag (·.supportsVMWareCursor) _ (fun _ _ => rfl) _ _).trans (Bool.false_or _)

@[simp] theorem setEncodings_desktopResize :
    (cp.setEncodings watermarkImage encodings).supportsDesktopResize =
      decide (pseudoEncodingDesktopSize ∈ encodings) :=
  (foldr_flag (·.supportsDesktopResize) _ (fun _ _ => rfl) _ _).trans (Bool.false_or _)

@[simp] theorem setEncodings_extendedDesktopSize :
    (cp.setEncodings watermarkImage encodings).supportsExtendedDesktopSize =
      decide (pseudoEncodingExtendedDesktopSize ∈ encodings) :=
  (foldr_flag (·.supportsExtendedDesktopSize) _ (fun _ _ => rfl) _ _).trans (Bool.false_or _)

@[simp] theorem setEncodings_qemuKeyEvent :
    (cp.setEncodings watermarkImage encodings).supportsQEMUKeyEvent =
      decide (pseudoEncodingQEMUKeyEvent ∈ encodings) :=
  (foldr_flag (·.supportsQEMUKeyEvent) _ (fun _ _ => rfl) _ _).trans (Bool.false_or _)

@[simp] theorem setEncodings_desktopRename :
    (cp.setEncodings watermarkImage encodings).supportsDesktopRename =
      (cp.supportsDesktopRename || decide (pseudoEncodingDesktopName ∈ encodings)) :=
  foldr_flag (·.supportsDesktopRename) _ (fun _ _ => rfl) _ _

@[simp] theorem setEncodings_supportsLEDState :
    (cp.setEncodings watermarkImage encodings).supportsLEDState =
      (cp.supportsLEDState || decide (pseudoEncodingLEDState ∈ encodings)) :=
  foldr_flag (·.supportsLEDState) _ (fun _ _ => rfl) _ _

@[simp] theorem setEncodings_fence :
    (cp.setEncodings watermarkImage encodings).supportsFence =
      (cp.supportsFence || decide (pseudoEncodingFence ∈ encodings)) :=
  foldr_flag (·.supportsFence) _ (fun _ _ => rfl) _ _

@[simp] theorem setEncodings_continuousUpdates :
    (cp.setEncodings watermarkImage encodings).supportsContinuousUpdates =
      (cp.supportsContinuousUpdates || decide (pseudoEncodingContinuousUpdates ∈ encodings)) :=
  foldr_flag (·.supportsContinuousUpdates) _ (fun _ _ => rfl) _ _

@[simp] theorem setEncodings_ledState :
    (cp.setEncodings watermarkImage encodings).ledState = cp.ledState :=
  foldr_same (·.ledState) (fun _ _ => rfl) _ _

/-- A positive encoding is supported after SetEncodings exactly if the message
names it or it is Raw. -/
theorem setEncodings_supportsEncoding {code : ℤ} (hcode : 0 < code) :
    (cp.setEncodings watermarkImage encodings).supportsEncoding code =
      decide (code ∈ encodings) := by
  have hmem := mem_foldr_encodings code cp.resetEncodings encodings
  have hraw : code ≠ encodingRaw := ne_of_gt hcode
  rw [supportsEncoding, decide_eq_decide]
  exact hmem.trans (by simp [resetEncodings, hraw, hcode])

end SetEncodings

end ConnParams

end KasmVNC.Rfb
