import KasmVNC.Rfb.CMsgWriter

/-!
# Writer and reader agree

What the viewer's writer writes is a client message, so the server's reader
consumes it; the handler is told the values the writer was given, as far as they
fit their fields. Clipboard messages are consumed and otherwise ignored. Pointer
events are not covered: the two sides disagree about their layout.
-/

namespace KasmVNC.Rfb

open KasmVNC.Lib KasmVNC.Lib.Reader SMsgReader CMsgWriter

/-! ## Fields -/

/-- The value fits an unsigned field of sixteen bits. -/
def FitsU16 (x : ℤ) : Prop := 0 ≤ x ∧ x < 2 ^ 16

theorem toNat_u16 {x : ℤ} (h : FitsU16 x) : ((u16 x).toNat : ℤ) = x := by
  rw [u16, BitVec.toNat_ofInt, Int.toNat_of_nonneg (Int.emod_nonneg _ (by decide))]
  exact Int.emod_eq_of_lt h.1 h.2

theorem toNat_u16_natCast {n : ℕ} (h : n < 2 ^ 16) : (u16 n).toNat = n := by
  have hn : FitsU16 (n : ℤ) := ⟨by omega, by exact_mod_cast h⟩
  exact_mod_cast toNat_u16 hn

theorem toNat_u8_natCast {n : ℕ} (h : n < 2 ^ 8) : (u8 n).toNat = n := by
  rw [u8, BitVec.toNat_ofInt]
  omega

theorem flag_ne_zero (b : Bool) : decide (flag b ≠ 0) = b := by
  cases b <;> decide

/-- A rectangle as it arrives. -/
def wireRect (r : Rect) : Rect :=
  Rect.ofXYWH (u16 r.tl.1).toNat (u16 r.tl.2).toNat (u16 r.width).toNat (u16 r.height).toNat

def FitsRect (r : Rect) : Prop :=
  FitsU16 r.tl.1 ∧ FitsU16 r.tl.2 ∧ FitsU16 r.width ∧ FitsU16 r.height

theorem wireRect_eq {r : Rect} (h : FitsRect r) : wireRect r = r := by
  obtain ⟨hx, hy, hw, hh⟩ := h
  rw [wireRect, toNat_u16 hx, toNat_u16 hy, toNat_u16 hw, toNat_u16 hh]
  obtain ⟨⟨x, y⟩, x', y'⟩ := r
  simp [Rect.ofXYWH, Rect.width, Rect.height]

/-! ## Pixel formats -/

/-- The bounds that sanity puts on the fields. -/
structure PixelFormatFields.Bounded (pf : PixelFormatFields) : Prop where
  bpp : pf.bpp = 8 ∨ pf.bpp = 16 ∨ pf.bpp = 32
  depth : pf.depth ≤ pf.bpp
  colourMap : pf.trueColour = true ∨ pf.depth = 8
  redMax : pf.redMax < 256
  greenMax : pf.greenMax < 256
  blueMax : pf.blueMax < 256
  redShift : pf.redShift ≤ pf.bpp
  greenShift : pf.greenShift ≤ pf.bpp
  blueShift : pf.blueShift ≤ pf.bpp

theorem PixelFormatFields.bounded_of_isSane {pf : PixelFormatFields}
    (h : pf.isSane = true) : pf.Bounded := by
  simp only [isSane, Bool.and_eq_true, Bool.or_eq_true, decide_eq_true_eq] at h
  obtain ⟨⟨⟨⟨⟨⟨⟨⟨⟨⟨⟨⟨⟨⟨⟨hbpp, hdepth⟩, hmap⟩, -⟩, -⟩, -⟩, hr⟩, hg⟩, hb⟩, -⟩, hrs⟩,
    hgs⟩, hbs⟩, -⟩, -⟩, -⟩ := h
  exact ⟨or_assoc.mp hbpp, hdepth, hmap, hr, hg, hb, by omega, by omega, by omega⟩

theorem PixelFormatFields.isSane_withoutColourMap {pf : PixelFormatFields}
    (h : pf.isSane = true) : pf.withoutColourMap.isSane = true := by
  unfold withoutColourMap
  split
  · exact h
  · rename_i hmap
    have hb := bounded_of_isSane h
    have hdepth : pf.depth = 8 := hb.colourMap.resolve_left hmap
    simp only [isSane, hdepth]
    rcases hb.bpp with hbpp | hbpp | hbpp <;> rw [hbpp] <;> simp <;> decide

/-- The pixel format the handler is told of: a colour map is replaced. -/
def PixelFormat.received (pf : PixelFormat) : PixelFormat :=
  ⟨pf.withoutColourMap, PixelFormatFields.isSane_withoutColourMap pf.sane⟩

/-- The wire format `PixelFormat::write` produces. -/
def PixelFormat.wire (pf : PixelFormat) : WirePixelFormat where
  bpp := u8 pf.bpp
  depth := u8 pf.depth
  bigEndian := flag pf.bigEndian
  trueColour := flag pf.trueColour
  redMax := u16 pf.redMax
  greenMax := u16 pf.greenMax
  blueMax := u16 pf.blueMax
  redShift := u8 pf.redShift
  greenShift := u8 pf.greenShift
  blueShift := u8 pf.blueShift
  pad := ⟨pad 3, rfl⟩

theorem PixelFormat.fields_wire (pf : PixelFormat) :
    pf.wire.fields = pf.withoutColourMap := by
  have hb := PixelFormatFields.bounded_of_isSane pf.sane
  have hbpp : pf.bpp < 2 ^ 8 := by
    rcases hb.bpp with h | h | h <;> omega
  have hdepth := hb.depth
  have hr := hb.redMax
  have hg := hb.greenMax
  have hbl := hb.blueMax
  have hrs := hb.redShift
  have hgs := hb.greenShift
  have hbs := hb.blueShift
  unfold WirePixelFormat.fields PixelFormat.wire
  simp only [flag_ne_zero]
  rw [toNat_u8_natCast hbpp, toNat_u8_natCast (by omega), toNat_u16_natCast (by omega),
    toNat_u16_natCast (by omega), toNat_u16_natCast (by omega),
    toNat_u8_natCast (by omega), toNat_u8_natCast (by omega),
    toNat_u8_natCast (by omega)]

/-! ## Screen layouts -/

/-- A screen behind all others goes to the end. -/
theorem ScreenSet.addScreen_of_lt : ∀ {layout : ScreenSet} {s : Screen},
    (∀ t ∈ layout, t.id < s.id) → layout.addScreen s = layout ++ [s]
  | [], _, _ => rfl
  | t :: layout, s, h => by
    have ht : ¬ s.id < t.id := BitVec.not_lt.mpr (BitVec.le_of_lt (h t List.mem_cons_self))
    rw [ScreenSet.addScreen, if_neg ht,
      addScreen_of_lt fun u hu => h u (List.mem_cons_of_mem _ hu)]
    rfl

/-- Adding screens in order of their ids rebuilds the layout. -/
theorem ScreenSet.foldl_addScreen : ∀ {screens layout : ScreenSet},
    (layout ++ screens).Pairwise (fun a b => a.id < b.id) →
    screens.foldl addScreen layout = layout ++ screens
  | [], layout, _ => (List.append_nil layout).symm
  | s :: screens, layout, h => by
    have hs : ∀ t ∈ layout, t.id < s.id := fun t ht =>
      (List.pairwise_append.mp h).2.2 t ht s List.mem_cons_self
    rw [List.foldl_cons, addScreen_of_lt hs, foldl_addScreen (by simpa using h)]
    simp

def Screen.wire (s : Screen) : WireScreen :=
  ⟨s.id, u16 s.dimensions.tl.1, u16 s.dimensions.tl.2, u16 s.dimensions.width,
    u16 s.dimensions.height, s.flags⟩

/-- A screen as it arrives. -/
def Screen.received (s : Screen) : Screen := { s with dimensions := wireRect s.dimensions }

/-- The layout the reader builds is the one written. -/
theorem received_layout {layout : ScreenSet}
    (h : layout.Pairwise fun a b => a.id < b.id) :
    ((layout.map Screen.wire).map WireScreen.screen).foldl ScreenSet.addScreen [] =
      layout.map Screen.received := by
  have hsorted : ([] ++ layout.map Screen.received).Pairwise fun a b : Screen =>
      a.id < b.id := by
    rw [List.nil_append, List.pairwise_map]
    exact h
  rw [List.map_map]
  exact ScreenSet.foldl_addScreen hsorted

/-! ## Lists of encodings -/

theorem length_wantedEncodings (cp : ViewerParams) (preferredEncoding : ℤ)
    (useCopyRect : Bool) :
    (wantedEncodings cp preferredEncoding useCopyRect).length < 2 ^ 16 := by
  unfold wantedEncodings
  simp only [List.length_append]
  grind [length_optional_le, List.length_filter_le]

/-! ## What arrives -/

namespace WriterCall

/-- Arguments the message format can carry. Pointer events are left out. -/
def Fits (cp : ViewerParams) : WriterCall → Prop
  | setEncodings encodings => encodings.length < 2 ^ 16
  | setDesktopSize _ _ layout =>
    layout.length < 2 ^ 8 ∧ layout.Pairwise fun a b => a.id < b.id
  | pointerEvent _ _ => False
  | clientCutText text => text.length < 2 ^ 31
  | clipboardProvide flags data => 4 + (cp.deflate (provided flags data)).length < 2 ^ 31
  | _ => True

/-- What the handler is told. -/
def received (cp : ViewerParams) : WriterCall → List HandlerCall
  | clientInit shared => [.clientInit shared]
  | setPixelFormat pf => [.setPixelFormat pf.received]
  | setEncodings encodings => [.setEncodings encodings]
  | preferredEncodings p u =>
    [.setEncodings ((wantedEncodings cp p u).map (BitVec.ofInt 32))]
  | setDesktopSize width height layout =>
    [.setDesktopSize (u16 width).toNat (u16 height).toNat (layout.map Screen.received)]
  | framebufferUpdateRequest r inc => [.framebufferUpdateRequest (wireRect r) inc]
  | enableContinuousUpdates enable x y w h =>
    [.enableContinuousUpdates enable (u16 x).toNat (u16 y).toNat (u16 w).toNat
      (u16 h).toNat]
  | fence flags data => [.fence flags data]
  | keyEvent keysym keycode down =>
    if !cp.supportsQEMUKeyEvent || keycode = 0 then
      if keysym = 0 then [] else [.keyEvent keysym 0 down]
    else [.keyEvent keysym keycode down]
  | _ => []

/-- The handler's method with the very arguments of the call. -/
def sent (cp : ViewerParams) : WriterCall → List HandlerCall
  | clientInit shared => [.clientInit shared]
  | setPixelFormat pf => [.setPixelFormat pf]
  | setEncodings encodings => [.setEncodings encodings]
  | preferredEncodings p u =>
    [.setEncodings ((wantedEncodings cp p u).map (BitVec.ofInt 32))]
  | setDesktopSize width height layout =>
    [.setDesktopSize width.toNat height.toNat layout]
  | framebufferUpdateRequest r inc => [.framebufferUpdateRequest r inc]
  | enableContinuousUpdates enable x y w h =>
    [.enableContinuousUpdates enable x.toNat y.toNat w.toNat h.toNat]
  | fence flags data => [.fence flags data]
  | keyEvent keysym keycode down => [.keyEvent keysym keycode down]
  | _ => []

/-- The arguments arrive unchanged. -/
def Exact (cp : ViewerParams) : WriterCall → Prop
  | setPixelFormat pf => pf.trueColour = true
  | setDesktopSize width height layout =>
    FitsU16 width ∧ FitsU16 height ∧ ∀ s ∈ layout, FitsRect s.dimensions
  | framebufferUpdateRequest r _ => FitsRect r
  | enableContinuousUpdates _ x y w h => FitsU16 x ∧ FitsU16 y ∧ FitsU16 w ∧ FitsU16 h
  | keyEvent keysym keycode _ =>
    if keycode = 0 then keysym ≠ 0 else cp.supportsQEMUKeyEvent = true
  | _ => True

theorem received_of_exact {cp : ViewerParams} {call : WriterCall} (h : call.Exact cp) :
    call.received cp = call.sent cp := by
  cases call with
  | setPixelFormat pf =>
    have hpf : pf.toPixelFormatFields.withoutColourMap = pf.toPixelFormatFields := if_pos h
    simp only [received, sent, PixelFormat.received, hpf]
  | setDesktopSize width height layout =>
    obtain ⟨hw, hh, hlayout⟩ := h
    have hscreens : layout.map Screen.received = layout := by
      refine (List.map_congr_left fun s hs => ?_).trans (List.map_id layout)
      rw [Screen.received, wireRect_eq (hlayout s hs)]
      rfl
    have hw' := toNat_u16 hw
    have hh' := toNat_u16 hh
    simp only [received, sent, hscreens]
    rw [show (u16 width).toNat = width.toNat by omega,
      show (u16 height).toNat = height.toNat by omega]
  | framebufferUpdateRequest r inc => rw [received, sent, wireRect_eq h]
  | enableContinuousUpdates enable x y w h' =>
    obtain ⟨hx, hy, hw, hh⟩ := h
    have hx' := toNat_u16 hx
    have hy' := toNat_u16 hy
    have hw' := toNat_u16 hw
    have hh' := toNat_u16 hh
    rw [received, sent, show (u16 x).toNat = x.toNat by omega,
      show (u16 y).toNat = y.toNat by omega, show (u16 w).toNat = w.toNat by omega,
      show (u16 h').toNat = h'.toNat by omega]
  | keyEvent keysym keycode down =>
    simp only [Exact] at h
    simp only [received, sent]
    by_cases hcode : keycode = 0
    · rw [if_pos hcode] at h
      rw [hcode, if_pos (by simp), if_neg h]
    · rw [if_neg hcode] at h
      rw [if_neg (by simpa [h] using hcode)]
  | _ => rfl

/-! ## Agreement -/

/-- Nothing is written and nobody told, or the reader consumes what is written
and the handler is told. -/
def Agrees (settings : ReaderSettings) (handler : Handler HandlerCall)
    (cp : ViewerParams) (call : WriterCall) (bytes : List Byte) : Prop :=
  (bytes = [] ∧ call.received cp = []) ∨
    Delivers handler (call.reader settings handler) bytes (call.received cp)

end WriterCall

variable {settings : ReaderSettings} {handler : Handler HandlerCall}

theorem counted_count_eq {w : ℕ} {α : Type} (xs : Counted w α) :
    xs.count = BitVec.ofInt w xs.val.length := by
  rw [Counted.count, BitVec.ofInt_natCast]

/-- A written message is one of the format, and its calls are those received. -/
theorem delivers_of_message (settings : ReaderSettings) (handler : Handler HandlerCall)
    (m : ClientMessage) {cs : List HandlerCall} (hm : ¬ m.OversizedRelay)
    (hcalls : m.calls settings = some cs) :
    Delivers handler (readMsg settings handler) m.bytes cs := by
  have h := readMsg_consumed settings handler hm
  unfold ClientMessage.Consumed at h
  rwa [hcalls] at h

/-- Clipboard actions are consumed and ignored. -/
theorem delivers_clipboardAction {cp : ViewerParams} {action : BitVec 32} {msg : String}
    {content bytes : List Byte} (hmin : 4 ≤ content.length)
    (hmax : content.length < 2 ^ 31)
    (hwrite : writeClipboardAction cp action msg content = .ok bytes) :
    Delivers handler (readMsg settings handler) bytes [] := by
  unfold writeClipboardAction at hwrite
  split at hwrite
  · cases hwrite
  · obtain rfl := Except.ok.inj hwrite
    refine delivers_of_message settings handler
      (.extendedClipboard ⟨pad 3, rfl⟩ content ⟨by omega, by omega⟩) id ?_
    exact if_neg (by omega)

theorem length_flatMap_be32 {α : Type} (f : α → BitVec 32) (xs : List α) :
    (xs.flatMap fun x => be32 (f x)).length = 4 * xs.length := by
  induction xs with
  | nil => rfl
  | cons x xs ih =>
    rw [List.flatMap_cons, List.length_append, ih, List.length_cons]
    show 4 + _ = _
    omega

theorem formatCount_le (flags : BitVec 32) : formatCount flags ≤ 16 :=
  (List.length_filter_le _ _).trans (List.length_range ▸ le_refl _)

theorem agrees_setEncodings {encodings : List (BitVec 32)}
    (h : encodings.length < 2 ^ 16) :
    Delivers handler (readMsg settings handler) (writeSetEncodings encodings)
      [.setEncodings encodings] := by
  have hm := delivers_of_message settings handler
    (.setEncodings ⟨pad 1, rfl⟩ ⟨encodings, h⟩) id rfl
  simp only [ClientMessage.bytes, ClientMessage.body, counted_count_eq] at hm
  exact hm

theorem agrees_setPixelFormat (pf : PixelFormat) :
    Delivers handler (readMsg settings handler) (writeSetPixelFormat pf)
      [.setPixelFormat pf.received] := by
  have hsane : pf.wire.fields.isSane = true := by
    rw [PixelFormat.fields_wire]
    exact pf.received.sane
  refine delivers_of_message settings handler (.setPixelFormat ⟨pad 3, rfl⟩ pf.wire) id ?_
  rw [ClientMessage.calls, dif_pos hsane]
  simp only [PixelFormat.received, PixelFormat.fields_wire]

theorem agrees_setDesktopSize (width height : ℤ) {layout : ScreenSet}
    (hlength : layout.length < 2 ^ 8) (hsorted : layout.Pairwise fun a b => a.id < b.id) :
    Delivers handler (readMsg settings handler)
      (startMsg msgTypeSetDesktopSize ++ (pad 1 ++ be16 (u16 width) ++ be16 (u16 height) ++
        [u8 layout.length] ++ pad 1 ++ layout.flatMap writeScreen))
      [.setDesktopSize (u16 width).toNat (u16 height).toNat
        (layout.map Screen.received)] := by
  have hwire : (layout.map Screen.wire).length < 2 ^ 8 := by
    rwa [List.length_map]
  have hm := delivers_of_message settings handler
    (.setDesktopSize ⟨pad 1, rfl⟩ (u16 width) (u16 height)
      ⟨layout.map Screen.wire, hwire⟩ ⟨pad 1, rfl⟩) id rfl
  simp only [ClientMessage.bytes, ClientMessage.body, counted_count_eq, List.length_map,
    List.flatMap_map, received_layout hsorted] at hm
  exact hm

theorem agrees_fence {flags : BitVec 32} {data : List Byte} (hlength : data.length ≤ 64) :
    Delivers handler (readMsg settings handler)
      (startMsg msgTypeClientFence ++ (pad 3 ++ be32 flags ++ [u8 data.length] ++ data))
      [.fence flags data] := by
  have hdata : data.length < 2 ^ 8 := by omega
  have hm := delivers_of_message settings handler
    (.fence ⟨pad 3, rfl⟩ flags ⟨data, hdata⟩) id
    (congrArg some (if_neg (by exact not_lt.mpr hlength)))
  simp only [ClientMessage.bytes, ClientMessage.body, counted_count_eq] at hm
  exact hm

theorem agrees_keyEvent (cp : ViewerParams) (keysym keycode : BitVec 32) (down : Bool) :
    (WriterCall.keyEvent keysym keycode down).Agrees settings handler cp
      (writeKeyEvent cp keysym keycode down) := by
  unfold WriterCall.Agrees
  simp only [WriterCall.received, writeKeyEvent]
  by_cases hplain : (!cp.supportsQEMUKeyEvent || keycode = 0) = true
  · rw [if_pos hplain, if_pos hplain]
    by_cases hsym : keysym = 0
    · rw [if_pos hsym, if_pos hsym]
      exact Or.inl ⟨rfl, rfl⟩
    · rw [if_neg hsym, if_neg hsym]
      have hm := delivers_of_message settings handler
        (.keyEvent (flag down) ⟨pad 2, rfl⟩ keysym) id rfl
      rw [flag_ne_zero] at hm
      exact Or.inr hm
  · rw [if_neg hplain, if_neg hplain]
    have hcode : keycode ≠ 0 := fun h => hplain (by simp [h])
    have hm := delivers_of_message settings handler
      (.qemuKeyEvent (u16 down.toNat) keysym keycode) id rfl
    have hdown : decide (u16 down.toNat ≠ 0) = down := by
      cases down <;> decide
    rw [if_neg hcode, hdown] at hm
    exact Or.inr hm

/-- **Writer and reader agree.** What a writer method writes is consumed by the
reader, and the handler is told the received values; these are the values of the
call where they fit their fields. -/
theorem writer_reader_agree {cp : ViewerParams} {call : WriterCall} {bytes : List Byte}
    (hfits : call.Fits cp) (hwrite : call.write cp = .ok bytes)
    (settings : ReaderSettings) (handler : Handler HandlerCall) :
    call.Agrees settings handler cp bytes ∧
      (call.Exact cp → call.received cp = call.sent cp) := by
  refine ⟨?_, WriterCall.received_of_exact⟩
  cases call with
  | clientInit shared =>
    obtain rfl := Except.ok.inj hwrite
    refine Or.inr ((reads_u8 (flag shared)).last ?_)
    rw [flag_ne_zero]
    exact callAll_singleton handler _
  | setPixelFormat pf =>
    obtain rfl := Except.ok.inj hwrite
    exact Or.inr (agrees_setPixelFormat pf)
  | setEncodings encodings =>
    obtain rfl := Except.ok.inj hwrite
    exact Or.inr (agrees_setEncodings hfits)
  | preferredEncodings p u =>
    obtain rfl := Except.ok.inj hwrite
    refine Or.inr (agrees_setEncodings ?_)
    rw [List.length_map]
    exact length_wantedEncodings cp p u
  | setDesktopSize width height layout =>
    simp only [WriterCall.write, writeSetDesktopSize] at hwrite
    split at hwrite
    · cases hwrite
    · obtain rfl := Except.ok.inj hwrite
      exact Or.inr (agrees_setDesktopSize width height hfits.1 hfits.2)
  | framebufferUpdateRequest r inc =>
    obtain rfl := Except.ok.inj hwrite
    have hm := delivers_of_message settings handler
      (.framebufferUpdateRequest (flag inc) (u16 r.tl.1) (u16 r.tl.2) (u16 r.width)
        (u16 r.height)) id rfl
    rw [flag_ne_zero] at hm
    exact Or.inr hm
  | enableContinuousUpdates enable x y w h =>
    simp only [WriterCall.write, writeEnableContinuousUpdates] at hwrite
    split at hwrite
    · cases hwrite
    · obtain rfl := Except.ok.inj hwrite
      have hm := delivers_of_message settings handler
        (.enableContinuousUpdates (flag enable) (u16 x) (u16 y) (u16 w) (u16 h)) id rfl
      rw [flag_ne_zero] at hm
      exact Or.inr hm
  | fence flags data =>
    simp only [WriterCall.write, writeFence] at hwrite
    split at hwrite
    · cases hwrite
    split at hwrite
    · cases hwrite
    rename_i hlength
    split at hwrite
    · cases hwrite
    · obtain rfl := Except.ok.inj hwrite
      exact Or.inr (agrees_fence (not_lt.mp hlength))
  | keyEvent keysym keycode down =>
    obtain rfl := Except.ok.inj hwrite
    exact agrees_keyEvent cp keysym keycode down
  | pointerEvent pos mask => exact hfits.elim
  | clientCutText text =>
    obtain rfl := Except.ok.inj hwrite
    exact Or.inr (delivers_of_message settings handler
      (.clientCutText ⟨pad 3, rfl⟩ ⟨text, hfits⟩) id rfl)
  | clipboardCaps caps lengths =>
    have hcount := formatCount_le caps
    have hlength := length_flatMap_be32 (fun i => lengths.getD i 0)
      (List.range (formatCount caps))
    rw [List.length_range] at hlength
    refine Or.inr (delivers_clipboardAction ?_ ?_ hwrite)
    · rw [List.length_append]
      exact Nat.le_add_right 4 _
    · rw [List.length_append, hlength]
      show 4 + _ < _
      omega
  | clipboardRequest flags =>
    refine Or.inr (delivers_clipboardAction (le_refl 4) ?_ hwrite)
    show 4 < 2 ^ 31
    decide
  | clipboardPeek flags =>
    refine Or.inr (delivers_clipboardAction (le_refl 4) ?_ hwrite)
    show 4 < 2 ^ 31
    decide
  | clipboardNotify flags =>
    refine Or.inr (delivers_clipboardAction (le_refl 4) ?_ hwrite)
    show 4 < 2 ^ 31
    decide
  | clipboardProvide flags data =>
    refine Or.inr (delivers_clipboardAction ?_ ?_ hwrite)
    · rw [List.length_append]
      exact Nat.le_add_right 4 _
    · rw [List.length_append]
      exact hfits

/-- A new desktop size of 640 by 480 with one screen, for a reader whose handler
accepts every call. -/
theorem writer_reader_agree_desktopSize :
    let cp : ViewerParams := ⟨800, 600, true, true, true, true, true, true, true, true, true,
      6, 8, 0, id⟩
    let call : WriterCall := .setDesktopSize 640 480 [⟨1, ⟨(0, 0), (640, 480)⟩, 0⟩]
    let settings : ReaderSettings := ⟨false, false, 0, id⟩
    ∃ bytes, call.Fits cp ∧ call.write cp = .ok bytes ∧
      call.Agrees settings (fun _ _ => none) cp bytes ∧
      (call.Exact cp → call.received cp = call.sent cp) := by
  intro cp call settings
  have hfits : call.Fits cp := ⟨by decide, List.pairwise_singleton _ _⟩
  exact ⟨_, hfits, rfl, writer_reader_agree hfits rfl _ _⟩

/-- The handler never hears of a cut text. -/
theorem cut_text_ignored :
    ¬ ∀ (cp : ViewerParams) (call : WriterCall) (bytes : List Byte)
        (settings : ReaderSettings) (handler : Handler HandlerCall),
      call.write cp = .ok bytes → bytes ≠ [] →
      ∃ c, Delivers handler (call.reader settings handler) bytes [c] := by
  intro h
  obtain ⟨c, hc⟩ := h ⟨800, 600, true, true, true, true, true, true, true, true, true, 6, 8,
    0, id⟩ (.clientCutText [104, 105]) _ ⟨false, false, 0, id⟩ (fun _ _ => none) rfl
    (by decide)
  have hcalls := hc [] []
  have hread : (WriterCall.clientCutText [104, 105]).reader ⟨false, false, 0, id⟩
      (fun _ _ => none) ⟨writeClientCutText [104, 105] ++ [], []⟩ =
      .ok ((), (⟨[], []⟩ : ReadState HandlerCall)) := rfl
  rw [hread] at hcalls
  injection hcalls with hcalls
  injection hcalls with _ hstate
  injection hstate with _ hnone
  cases hnone

end KasmVNC.Rfb
