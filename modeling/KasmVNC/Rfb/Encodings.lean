import Mathlib.Data.Int.Notation
import Mathlib.Data.Nat.Notation

/-!
# Encoding numbers

Encodings and pseudo-encodings of the RFB protocol, as far as the models below
tell them apart.
-/

namespace KasmVNC.Rfb

abbrev encodingRaw : ℤ := 0
abbrev encodingCopyRect : ℤ := 1
abbrev encodingRRE : ℤ := 2
abbrev encodingHextile : ℤ := 5
abbrev encodingTight : ℤ := 7
abbrev encodingZRLE : ℤ := 16
abbrev encodingMax : ℕ := 255

abbrev pseudoEncodingXCursor : ℤ := -240
abbrev pseudoEncodingCursor : ℤ := -239
abbrev pseudoEncodingDesktopSize : ℤ := -223
abbrev pseudoEncodingLEDState : ℤ := -261
abbrev pseudoEncodingExtendedDesktopSize : ℤ := -308
abbrev pseudoEncodingDesktopName : ℤ := -307
abbrev pseudoEncodingFence : ℤ := -312
abbrev pseudoEncodingContinuousUpdates : ℤ := -313
abbrev pseudoEncodingCursorWithAlpha : ℤ := -314
abbrev pseudoEncodingQEMUKeyEvent : ℤ := -258
abbrev pseudoEncodingLastRect : ℤ := -224
abbrev pseudoEncodingQualityLevel0 : ℤ := -32
abbrev pseudoEncodingCompressLevel0 : ℤ := -256
abbrev pseudoEncodingWEBP : ℤ := -1024
abbrev pseudoEncodingQOI : ℤ := -1886
abbrev pseudoEncodingVMwareCursor : ℤ := 0x574d5664
abbrev pseudoEncodingVMwareCursorPosition : ℤ := 0x574d5666

end KasmVNC.Rfb
