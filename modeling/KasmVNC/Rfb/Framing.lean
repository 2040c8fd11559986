import KasmVNC.Rfb.ClientMessage

/-!
# Framing of client messages

`readMsg` consumes every client message: its bytes, and no others, are read and
its calls are made, or it throws. The exception is relay data under an oversized
name, of which only the name is consumed.
-/

namespace KasmVNC.Rfb

open KasmVNC.Lib KasmVNC.Lib.Reader SMsgReader

variable {settings : ReaderSettings} {handler : Handler HandlerCall}

theorem reads_padding {n : ℕ} (pad : Padding n) :
    Reads (skip n : MsgReader Unit) pad.val () := by
  have h := reads_skip (κ := HandlerCall) pad.val
  rwa [pad.property] at h

/-! ## Parts of messages -/

theorem consumes_readPixelFormat (pf : WirePixelFormat) :
    Consumes readPixelFormat pf.bytes
      (if hsane : pf.fields.isSane then pure ⟨pf.fields, hsane⟩
        else fail "invalid pixel format") := by
  unfold readPixelFormat WirePixelFormat.bytes
  simp only [List.append_assoc]
  refine (reads_u8 _).read ?_
  refine (reads_u8 _).read ?_
  refine (reads_u8 _).read ?_
  refine (reads_u8 _).read ?_
  refine (reads_u16 _).read ?_
  refine (reads_u16 _).read ?_
  refine (reads_u16 _).read ?_
  refine (reads_u8 _).read ?_
  refine (reads_u8 _).read ?_
  refine (reads_u8 _).read ?_
  exact (reads_padding _).last rfl

theorem reads_readScreen (s : WireScreen) : Reads readScreen s.bytes s.screen := by
  unfold readScreen WireScreen.bytes
  simp only [List.append_assoc]
  refine (reads_u32 _).read ?_
  refine (reads_u16 _).read ?_
  refine (reads_u16 _).read ?_
  refine (reads_u16 _).read ?_
  refine (reads_u16 _).read ?_
  exact (reads_u32 _).last rfl

/-- The loop over clipboard entries; by induction on the entries still to come,
with the names of the accepted ones so far. -/
theorem delivers_readClipboardEntries : ∀ (entries : List WireClipboard)
    (mimes : List (List Byte)),
    Delivers handler (readClipboardEntries settings handler entries.length mimes)
      (entries.flatMap WireClipboard.bytes)
      ((entries.filter (·.accepted settings)).map
          (fun e => .addBinaryClipboard (cString e.mime.val) e.data.val) ++
        [.handleClipboardAnnounceBinary (mimes ++
          (entries.filter (·.accepted settings)).map
            fun e => (cString e.mime.val).take 31)])
  | [], mimes => by
    simp only [List.length_nil, readClipboardEntries, callAll_singleton,
      List.filter_nil, List.map_nil, List.append_nil, List.nil_append, List.flatMap_nil]
    exact consumes_refl _
  | e :: entries, mimes => by
    rw [List.length_cons, readClipboardEntries, List.flatMap_cons, WireClipboard.bytes]
    simp only [List.append_assoc]
    refine (reads_u8 _).read ?_
    refine (reads_counted _).read ?_
    refine (reads_u32 _).read ?_
    refine (reads_counted _).read ?_
    rw [Counted.toNat_count]
    split
    · rename_i hlarge
      have hrej : e.accepted settings = false := by
        simp [WireClipboard.accepted, hlarge.1, hlarge.2]
      rw [List.filter_cons_of_neg (by simp [hrej])]
      exact delivers_readClipboardEntries entries mimes
    · rename_i hsmall
      have hacc : e.accepted settings = true := by
        simp only [WireClipboard.accepted, Bool.or_eq_true, decide_eq_true_eq]
        omega
      rw [List.filter_cons_of_pos (by simpa using hacc)]
      refine Consumes.call _ ?_
      have htail := delivers_readClipboardEntries entries
        (mimes ++ [(cString e.mime.val).take 31])
      rwa [List.append_assoc] at htail

/-! ## Whole messages -/

theorem consumes_readSetPixelFormat (pad : Padding 3) (pf : WirePixelFormat) :
    Consumes (readSetPixelFormat handler) (pad.val ++ pf.bytes)
      (if hsane : pf.fields.isSane then callAll handler [.setPixelFormat ⟨pf.fields, hsane⟩]
        else fail "invalid pixel format") := by
  unfold readSetPixelFormat
  refine (reads_padding pad).read ?_
  intro rest calls
  show Except.bind (readPixelFormat _) _ = _
  rw [consumes_readPixelFormat pf]
  split
  · exact congrFun (callAll_singleton handler _) _
  · rfl

theorem delivers_readSetEncodings (pad : Padding 1) (es : Counted 16 (BitVec 32)) :
    Delivers handler (readSetEncodings handler)
      (pad.val ++ be16 es.count ++ es.val.flatMap be32) [.setEncodings es.val] := by
  unfold readSetEncodings
  rw [List.append_assoc]
  refine (reads_padding pad).read ?_
  refine (reads_u16 _).read ?_
  refine (reads_manyCounted reads_u32 es).last ?_
  rw [List.map_id']
  exact callAll_singleton handler _

theorem delivers_readSetDesktopSize (pad pad' : Padding 1) (width height : BitVec 16)
    (screens : Counted 8 WireScreen) :
    Delivers handler (readSetDesktopSize handler)
      (pad.val ++ be16 width ++ be16 height ++ [screens.count] ++ pad'.val ++
        screens.val.flatMap WireScreen.bytes)
      [.setDesktopSize width.toNat height.toNat
        ((screens.val.map WireScreen.screen).foldl .addScreen [])] := by
  unfold readSetDesktopSize
  simp only [List.append_assoc]
  refine (reads_padding pad).read ?_
  refine (reads_u16 _).read ?_
  refine (reads_u16 _).read ?_
  refine (reads_u8 _).read ?_
  refine (reads_padding pad').read ?_
  refine (reads_manyCounted reads_readScreen screens).last ?_
  exact callAll_singleton handler _

theorem delivers_readSetMaxVideoResolution (width height : BitVec 16) :
    Delivers handler (readSetMaxVideoResolution settings handler)
      (be16 width ++ be16 height)
      (if !settings.ignoreClientSettingsKasm && settings.canChangeKasmSettings then
        [.maxVideoResolution width.toNat height.toNat] else []) := by
  unfold readSetMaxVideoResolution
  refine (reads_u16 _).read ?_
  refine (reads_u16 _).last ?_
  split
  · exact callAll_singleton handler _
  · rfl

theorem delivers_readFramebufferUpdateRequest (inc : Byte) (x y w h : BitVec 16) :
    Delivers handler (readFramebufferUpdateRequest handler)
      ([inc] ++ be16 x ++ be16 y ++ be16 w ++ be16 h)
      [.framebufferUpdateRequest (Rect.ofXYWH x.toNat y.toNat w.toNat h.toNat)
        (inc ≠ 0)] := by
  unfold readFramebufferUpdateRequest
  simp only [List.append_assoc]
  refine (reads_u8 _).read ?_
  refine (reads_u16 _).read ?_
  refine (reads_u16 _).read ?_
  refine (reads_u16 _).read ?_
  exact (reads_u16 _).last (callAll_singleton handler _)

theorem delivers_readEnableContinuousUpdates (enable : Byte) (x y w h : BitVec 16) :
    Delivers handler (readEnableContinuousUpdates handler)
      ([enable] ++ be16 x ++ be16 y ++ be16 w ++ be16 h)
      [.enableContinuousUpdates (enable ≠ 0) x.toNat y.toNat w.toNat h.toNat] := by
  unfold readEnableContinuousUpdates
  simp only [List.append_assoc]
  refine (reads_u8 _).read ?_
  refine (reads_u16 _).read ?_
  refine (reads_u16 _).read ?_
  refine (reads_u16 _).read ?_
  exact (reads_u16 _).last (callAll_singleton handler _)

theorem delivers_readFence (pad : Padding 3) (flags : BitVec 32) (data : Counted 8 Byte) :
    Delivers handler (readFence handler)
      (pad.val ++ be32 flags ++ [data.count] ++ data.val)
      (if data.val.length > 64 then [] else [.fence flags data.val]) := by
  unfold readFence
  simp only [List.append_assoc]
  refine (reads_padding pad).read ?_
  refine (reads_u32 _).read ?_
  refine (reads_u8 _).read ?_
  rw [Counted.toNat_count]
  split
  · exact reads_skip data.val
  · exact (reads_bytes data.val).last (callAll_singleton handler _)

theorem delivers_readRequestStats (pad : Padding 3) :
    Delivers handler (readRequestStats handler) pad.val [.sendStats] :=
  (reads_padding pad).last (callAll_singleton handler _)

theorem delivers_readFrameStats (pad : Padding 3) (all render : BitVec 32) :
    Delivers handler (readFrameStats handler) (pad.val ++ be32 all ++ be32 render)
      [.handleFrameStats all render] := by
  unfold readFrameStats
  rw [List.append_assoc]
  refine (reads_padding pad).read ?_
  refine (reads_u32 _).read ?_
  exact (reads_u32 _).last (callAll_singleton handler _)

theorem delivers_readBinaryClipboard (entries : Counted 8 WireClipboard) :
    Delivers handler (readBinaryClipboard settings handler)
      ([entries.count] ++ entries.val.flatMap WireClipboard.bytes)
      (.clearBinaryClipboard :: clipboardCalls settings entries.val) := by
  unfold readBinaryClipboard
  refine (reads_u8 _).read ?_
  refine Consumes.call _ ?_
  rw [Counted.toNat_count]
  exact delivers_readClipboardEntries entries.val []

theorem delivers_readKeyEvent (down : Byte) (pad : Padding 2) (key : BitVec 32) :
    Delivers handler (readKeyEvent handler) ([down] ++ pad.val ++ be32 key)
      [.keyEvent key 0 (down ≠ 0)] := by
  unfold readKeyEvent
  rw [List.append_assoc]
  refine (reads_u8 _).read ?_
  refine (reads_padding pad).read ?_
  exact (reads_u32 _).last (callAll_singleton handler _)

theorem delivers_readPointerEvent (mask x y scrollX scrollY : BitVec 16) :
    Delivers handler (readPointerEvent handler)
      (be16 mask ++ be16 x ++ be16 y ++ be16 scrollX ++ be16 scrollY)
      [.pointerEvent (x.toNat, y.toNat) mask.toNat scrollX.toInt scrollY.toInt] := by
  unfold readPointerEvent
  simp only [List.append_assoc]
  refine (reads_u16 _).read ?_
  refine (reads_u16 _).read ?_
  refine (reads_u16 _).read ?_
  refine (reads_u16 _).read ?_
  exact (reads_u16 _).last (callAll_singleton handler _)

theorem top_bit_eq_zero_iff (v : BitVec 32) : v &&& 0x80000000 = 0 ↔ v.toNat < 2 ^ 31 := by
  have hand : v &&& 0x80000000 = if v.getLsbD 31 then BitVec.twoPow 32 31 else 0 :=
    BitVec.and_twoPow v 31
  have hmsb : v.getLsbD 31 = decide (2 ^ 31 ≤ v.toNat) := BitVec.msb_eq_decide v
  rw [hand, hmsb]
  by_cases h : 2 ^ 31 ≤ v.toNat
  · simp only [h, decide_true, if_true, not_lt.mpr h, iff_false]
    decide
  · simp

theorem delivers_readClientCutText (pad : Padding 3) (text : Counted 31 Byte) :
    Delivers handler readClientCutText
      (pad.val ++ be32 (BitVec.ofNat 32 text.val.length) ++ text.val) [] := by
  have hlen : text.val.length < 2 ^ 31 := text.property
  have hnat : (BitVec.ofNat 32 text.val.length).toNat = text.val.length := by
    rw [BitVec.toNat_ofNat]
    omega
  have htop : BitVec.ofNat 32 text.val.length &&& 0x80000000 = 0 := by
    rw [top_bit_eq_zero_iff, hnat]
    exact hlen
  unfold readClientCutText
  rw [List.append_assoc]
  refine (reads_padding pad).read ?_
  refine (reads_u32 _).read ?_
  rw [if_neg (not_not.mpr htop), hnat]
  exact reads_skip text.val

/-- A negative length: the message is skipped when it can hold the flags. -/
theorem consumes_readExtendedClipboard (pad : Padding 3) (data : List Byte)
    (hlen : 0 < data.length ∧ data.length ≤ 2 ^ 31) :
    Consumes (readClientCutText : MsgReader Unit)
      (pad.val ++ be32 (-BitVec.ofNat 32 data.length) ++ data)
      (if data.length < 4 ∨ data.length = 2 ^ 31 then
        fail "Invalid extended clipboard message" else pure ()) := by
  have hnat : (BitVec.ofNat 32 data.length).toNat = data.length := by
    rw [BitVec.toNat_ofNat]
    omega
  have htop : -BitVec.ofNat 32 data.length &&& 0x80000000 ≠ 0 := by
    rw [ne_eq, top_bit_eq_zero_iff, BitVec.toNat_neg, hnat]
    omega
  have hslen : (-(-BitVec.ofNat 32 data.length)).toInt =
      if data.length = 2 ^ 31 then -2 ^ 31 else (data.length : ℤ) := by
    rw [BitVec.neg_neg, BitVec.toInt_eq_toNat_cond, hnat]
    split <;> split <;> omega
  unfold readClientCutText
  rw [List.append_assoc]
  refine (reads_padding pad).read ?_
  refine (reads_u32 _).read ?_
  simp only [if_pos htop, hslen, readExtendedClipboard]
  by_cases hfull : data.length = 2 ^ 31
  · rw [if_pos hfull, if_pos (by decide), if_pos (Or.inr hfull)]
    exact fun _ _ => rfl
  · rw [if_neg hfull]
    by_cases hshort : data.length < 4
    · rw [if_pos (by exact_mod_cast hshort), if_pos (Or.inl hshort)]
      exact fun _ _ => rfl
    · rw [if_neg (by exact_mod_cast hshort), if_neg (by tauto)]
      exact reads_skip data

theorem delivers_readQEMUMessage (down : BitVec 16) (keysym keycode : BitVec 32) :
    Delivers handler (readQEMUMessage handler)
      ([BitVec.ofNat 8 qemuExtendedKeyEvent] ++ be16 down ++ be32 keysym ++ be32 keycode)
      (if keycode = 0 then [] else [.keyEvent keysym keycode (down ≠ 0)]) := by
  unfold readQEMUMessage
  simp only [List.append_assoc]
  refine (reads_u8 _).read ?_
  show Delivers handler (readQEMUKeyEvent handler) _ _
  unfold readQEMUKeyEvent
  refine (reads_u16 _).read ?_
  refine (reads_u32 _).read ?_
  refine (reads_u32 _).last ?_
  split
  · rfl
  · exact callAll_singleton handler _

theorem delivers_readUpgradeToUdp (request : Counted 16 Byte) :
    Delivers handler (readUpgradeToUdp settings handler)
      (be16 request.count ++ request.val)
      (if request.val.length ≥ 4096 then []
        else if request.val = [] then [.udpDowngrade]
        else [.udpUpgrade (settings.wuGotHttp request.val)]) := by
  unfold readUpgradeToUdp
  refine (reads_u16 _).read ?_
  rw [Counted.toNat_count]
  have hzero : request.count = 0 ↔ request.val = [] := by
    rw [← List.length_eq_zero_iff, ← Counted.toNat_count, ← BitVec.toNat_inj]
    rfl
  split
  · exact reads_skip request.val
  · simp only [hzero]
    split
    · rename_i hempty
      rw [hempty, callAll_singleton]
      exact consumes_refl _
    · exact (reads_bytes request.val).last (callAll_singleton handler _)

theorem delivers_readSubscribeUnixRelay (name : Counted 8 Byte) :
    Delivers handler (readSubscribeUnixRelay handler) ([name.count] ++ name.val)
      (if name.val.length ≥ 64 then [] else [.subscribeUnixRelay (cString name.val)]) := by
  unfold readSubscribeUnixRelay
  refine (reads_u8 _).read ?_
  rw [Counted.toNat_count]
  split
  · exact reads_skip name.val
  · exact (reads_bytes name.val).last (callAll_singleton handler _)

theorem delivers_readUnixRelay (name : Counted 8 Byte) (data : Counted 32 Byte)
    (hname : name.val.length < 64) :
    Delivers handler (readUnixRelay handler)
      ([name.count] ++ name.val ++ be32 data.count ++ data.val)
      (if data.val.length ≥ 1024 * 1024 then []
        else [.unixRelay (cString name.val) data.val]) := by
  unfold readUnixRelay
  simp only [List.append_assoc]
  refine (reads_u8 _).read ?_
  rw [Counted.toNat_count, if_neg (not_le.mpr hname)]
  refine (reads_bytes name.val).read ?_
  refine (reads_u32 _).read ?_
  rw [Counted.toNat_count]
  split
  · exact reads_skip data.val
  · exact (reads_bytes data.val).last (callAll_singleton handler _)

/-- Under an oversized name the data and its length are left in the stream. -/
theorem readUnixRelay_oversized (name : Counted 8 Byte) (data : Counted 32 Byte)
    (hname : name.val.length ≥ 64) (rest : List Byte) (calls : List HandlerCall) :
    readUnixRelay handler
        ⟨[name.count] ++ name.val ++ be32 data.count ++ data.val ++ rest, calls⟩ =
      .ok ((), ⟨be32 data.count ++ data.val ++ rest, calls⟩) := by
  have hskip : Consumes (readUnixRelay handler) ([name.count] ++ name.val) (pure ()) := by
    unfold readUnixRelay
    refine (reads_u8 _).read ?_
    rw [Counted.toNat_count, if_pos hname]
    exact reads_skip name.val
  have h := hskip (be32 data.count ++ data.val ++ rest) calls
  simp only [List.append_assoc] at h ⊢
  exact h

theorem delivers_readVideoEncodersRequest (encoders : Counted 8 (BitVec 32)) :
    Delivers handler (readVideoEncodersRequest handler)
      ([encoders.count] ++ encoders.val.flatMap be32)
      [.videoEncodersRequest encoders.val] := by
  unfold readVideoEncodersRequest
  refine (reads_u8 _).read ?_
  refine (reads_manyCounted reads_u32 encoders).last ?_
  rw [List.map_id']
  exact callAll_singleton handler _

/-! ## All messages -/

/-- The message the reader does not consume: relay data whose channel name is
longer than 63 bytes. -/
def ClientMessage.OversizedRelay : ClientMessage → Prop
  | unixRelay name _ => name.val.length ≥ 64
  | _ => False

/-- The reader makes the calls of the message or throws. -/
def ClientMessage.Consumed (settings : ReaderSettings) (handler : Handler HandlerCall)
    (m : ClientMessage) : Prop :=
  match m.calls settings with
  | some cs => Delivers handler (readMsg settings handler) m.bytes cs
  | none => ∃ msg, Consumes (readMsg settings handler) m.bytes (fail msg)

theorem readMsg_consumed (settings : ReaderSettings) (handler : Handler HandlerCall)
    {m : ClientMessage} (hm : ¬ m.OversizedRelay) : m.Consumed settings handler := by
  cases m with
  | setPixelFormat pad pf =>
    have h : Consumes (readMsg settings handler) (ClientMessage.setPixelFormat pad pf).bytes _ :=
      (reads_u8 _).read (consumes_readSetPixelFormat pad pf)
    unfold ClientMessage.Consumed ClientMessage.calls
    by_cases hsane : pf.fields.isSane
    · simpa only [hsane, dite_true] using h
    · simp only [hsane] at h ⊢
      exact ⟨_, h⟩
  | setEncodings pad es =>
    exact (reads_u8 _).read (delivers_readSetEncodings pad es)
  | setDesktopSize pad width height screens pad' =>
    exact (reads_u8 _).read (delivers_readSetDesktopSize pad pad' width height screens)
  | setMaxVideoResolution width height =>
    exact (reads_u8 _).read (delivers_readSetMaxVideoResolution width height)
  | framebufferUpdateRequest inc x y w h =>
    exact (reads_u8 _).read (delivers_readFramebufferUpdateRequest inc x y w h)
  | enableContinuousUpdates enable x y w h =>
    exact (reads_u8 _).read (delivers_readEnableContinuousUpdates enable x y w h)
  | fence pad flags data =>
    exact (reads_u8 _).read (delivers_readFence pad flags data)
  | requestStats pad => exact (reads_u8 _).read (delivers_readRequestStats pad)
  | frameStats pad all render =>
    exact (reads_u8 _).read (delivers_readFrameStats pad all render)
  | binaryClipboard entries =>
    exact (reads_u8 _).read (delivers_readBinaryClipboard entries)
  | keyEvent down pad key =>
    exact (reads_u8 _).read (delivers_readKeyEvent down pad key)
  | pointerEvent mask x y scrollX scrollY =>
    exact (reads_u8 _).read (delivers_readPointerEvent mask x y scrollX scrollY)
  | clientCutText pad text =>
    exact (reads_u8 _).read (delivers_readClientCutText pad text)
  | extendedClipboard pad data hlen =>
    have h : Consumes (readMsg settings handler)
        (ClientMessage.extendedClipboard pad data hlen).bytes _ :=
      (reads_u8 _).read (consumes_readExtendedClipboard pad data hlen)
    unfold ClientMessage.Consumed ClientMessage.calls
    by_cases hbad : data.length < 4 ∨ data.length = 2 ^ 31
    · simp only [if_pos hbad] at h ⊢
      exact ⟨_, h⟩
    · simp only [if_neg hbad] at h ⊢
      exact h
  | qemuKeyEvent down keysym keycode =>
    exact (reads_u8 _).read (delivers_readQEMUMessage down keysym keycode)
  | upgradeToUdp request =>
    exact (reads_u8 _).read (delivers_readUpgradeToUdp request)
  | subscribeUnixRelay name =>
    exact (reads_u8 _).read (delivers_readSubscribeUnixRelay name)
  | unixRelay name data =>
    have hname : name.val.length < 64 := not_le.mp hm
    have h : Delivers handler (readMsg settings handler)
        (ClientMessage.unixRelay name data).bytes _ :=
      (reads_u8 _).read (delivers_readUnixRelay name data hname)
    unfold ClientMessage.Consumed ClientMessage.calls
    simpa only [ge_iff_le, not_le.mpr hname, false_or] using h
  | videoEncoders encoders =>
    exact (reads_u8 _).read (delivers_readVideoEncodersRequest encoders)
  | keepAlive =>
    exact (reads_u8 _).last (callAll_singleton handler _)

/-! ## Message boundaries -/

/-- After relay data under an oversized name the reader stands in front of the
length of the data. -/
theorem not_frames_of_oversized {m : ClientMessage} (hm : m.OversizedRelay) :
    ¬ Frames (readMsg settings handler) m.bytes := by
  cases m with
  | unixRelay name data =>
    intro hframes
    have hleft : readMsg settings handler
        ⟨(ClientMessage.unixRelay name data).bytes ++ [], []⟩ =
        .ok ((), ⟨be32 data.count ++ data.val ++ [], []⟩) :=
      readUnixRelay_oversized name data hm [] []
    rcases hframes [] [] with ⟨msg, herr⟩ | ⟨calls, hok⟩
    · rw [hleft] at herr
      cases herr
    · rw [hleft] at hok
      injection hok with hok
      injection hok with _ hstate
      injection hstate with hinput _
      simp [be32] at hinput
  | _ => exact absurd hm id

theorem readMsg_frames {m : ClientMessage} (hm : ¬ m.OversizedRelay) :
    Frames (readMsg settings handler) m.bytes := by
  have hconsumed := readMsg_consumed settings handler hm
  unfold ClientMessage.Consumed at hconsumed
  split at hconsumed
  · exact Delivers.frames hconsumed
  · obtain ⟨msg, hfail⟩ := hconsumed
    exact frames_of_fails hfail

/-- **Framing.** Reading a message ends at its last byte or with an exception,
exactly when it is not relay data under an oversized name; without such messages
the reader is at a message boundary after each message of a stream. -/
theorem readMsg_framing (settings : ReaderSettings) (handler : Handler HandlerCall) :
    (∀ m : ClientMessage,
      Frames (readMsg settings handler) m.bytes ↔ ¬ m.OversizedRelay) ∧
    ∀ ms : List ClientMessage, (∀ m ∈ ms, ¬ m.OversizedRelay) →
      Frames (readAll (readMsg settings handler) ms.length)
        (ms.flatMap ClientMessage.bytes) := by
  constructor
  · intro m
    exact ⟨fun hframes hm => not_frames_of_oversized hm hframes, readMsg_frames⟩
  · intro ms hms
    have hall : ∀ bytes ∈ ms.map ClientMessage.bytes,
        Frames (readMsg settings handler) bytes := by
      intro bytes hbytes
      obtain ⟨m, hm, rfl⟩ := List.mem_map.mp hbytes
      exact readMsg_frames (hms m hm)
    have h := frames_readAll hall
    rwa [List.length_map, ← List.flatMap_def] at h

/-- A relay message with a 64-byte name and one byte of data, read by a handler
that accepts everything: five bytes are left. -/
theorem oversized_relay_desynchronises :
    ¬ ∀ (settings : ReaderSettings) (handler : Handler HandlerCall) (m : ClientMessage),
      Frames (readMsg settings handler) m.bytes := by
  intro h
  have hname : (List.replicate 64 (97 : Byte)).length < 2 ^ 8 := by decide
  exact not_frames_of_oversized
    (m := .unixRelay ⟨List.replicate 64 97, hname⟩ ⟨[120], by decide⟩)
    (show (List.replicate 64 (97 : Byte)).length ≥ 64 by decide)
    (h ⟨false, false, 0, id⟩ (fun _ _ => none) _)

end KasmVNC.Rfb
