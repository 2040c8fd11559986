import KasmVNC.Rfb.BinaryClipboard
import KasmVNC.Rfb.Unicode
import KasmVNC.Unix.VncSelection

/-!
# Pasting what a client has sent

An X client that asks for the selection is given a property. Its bytes are those the client has
sent for the type, or what `utf8ToLatin1` makes of the text. The text has no terminator, and
`utf8ToLatin1` is given no limit but `(size_t)-1`; the property is made as long as the text was.
-/

namespace KasmVNC.Unix

open KasmVNC.Lib KasmVNC.Rfb

/-- Atoms stand for their names. -/
abbrev Atom := List Byte

def xaTARGETS : Atom := ascii "TARGETS"

def xaTIMESTAMP : Atom := ascii "TIMESTAMP"

def xaSTRING : Atom := ascii "STRING"

def xaTEXT : Atom := ascii "TEXT"

def xaUTF8_STRING : Atom := ascii "UTF8_STRING"

inductive PropertyValue
  /-- Format 32, of type `ATOM` -/
  | atoms (targets : List Atom)
  /-- Format 32, of type `INTEGER` -/
  | integer (milliseconds : BitVec 32)
  /-- Format 8 -/
  | bytes (type : Atom) (data : List Byte)
deriving DecidableEq

inductive ConvertFault
  /-- A byte behind the stored text is read. -/
  | readsPastText
  /-- A byte behind what has been converted is read. -/
  | readsPastBuffer
  | badMatch
  | outOfTurns
deriving DecidableEq

/-! ## The request -/

/-- `utf8ToLatin1(src, bytes)`, where the limit has nothing to do with what may be read. Both
passes go through the string anew. -/
def utf8ToLatin1Within (bytes : ℕ) (src : List Byte) : Except WalkFault (List Byte) := do
  let sz ← walkFrom 0 utf8ToUCS4 (fun sz ucs => sz + (latin1 ucs).length) (src.length + 1) bytes
    src 1
  let out ← walkFrom 0 utf8ToUCS4 (fun out ucs => out ++ latin1 ucs) (src.length + 1) bytes src []
  return filled sz out

/-- `VNCSConnectionST::getBinaryClipboardData`: a type that is not there has the bytes of the
empty string, with its terminator. -/
def getBinaryClipboardData (b : List BinaryClipboard) (mime : List Byte) : List Byte :=
  match b.find? (·.mime.bytes = mime) with
  | some e => e.data.val
  | none => [0]

/-- The types at `mimeIndexesFromClient`. -/
def ClientMimes.offered (mimetypes : List (List Byte)) (s : ClientMimes) : List Atom :=
  (s.mimeIndexesFromClient.take s.numMimesFromClient).filterMap (mimetypes[·]?)

/-- `clientHasBinaryAtom` -/
def clientHasBinaryAtom (mimetypes : List (List Byte)) (s : ClientMimes) (target : Atom) :
    Option Atom :=
  (s.offered mimetypes).find? (· = target)

/-- `dixChangeWindowProperty` copies that many bytes. -/
def copyProperty (buffer : List Byte) (len : ℕ) : Except ConvertFault (List Byte) :=
  if len ≤ buffer.length then .ok (buffer.take len) else .error .readsPastBuffer

/-- `vncUTF8ToLatin1(data, (size_t)-1)` -/
def vncUTF8ToLatin1 (data : List Byte) : Except ConvertFault (List Byte) :=
  match utf8ToLatin1Within (2 ^ 64 - 1) data with
  | .ok buffer => .ok buffer
  | .error .outOfBounds => .error .readsPastText
  | .error .outOfTurns => .error .outOfTurns

/-- What `vncConvertSelection` sets the property to, for a selection and a window that are
there. -/
def vncConvertSelection (mimetypes : List (List Byte)) (s : ClientMimes)
    (b : List BinaryClipboard) (lastTimeChanged : BitVec 32) (target : Atom) :
    Except ConvertFault PropertyValue :=
  if target = xaTARGETS then
    .ok (.atoms ([xaTARGETS, xaTIMESTAMP, xaSTRING, xaTEXT, xaUTF8_STRING] ++
      s.offered mimetypes))
  else if target = xaTIMESTAMP then .ok (.integer lastTimeChanged)
  else
    match clientHasBinaryAtom mimetypes s target with
    | some mime => .ok (.bytes mime (getBinaryClipboardData b mime))
    | none =>
      if s.textFromClient then
        let data := getBinaryClipboardData b textPlain
        let len := data.length
        if target = xaSTRING ∨ target = xaTEXT then do
          let latin1 ← vncUTF8ToLatin1 data
          let value ← copyProperty latin1 len
          .ok (.bytes xaSTRING value)
        else if target = xaUTF8_STRING then .ok (.bytes xaUTF8_STRING data)
        else .error .badMatch
      else .error .badMatch

/-! ## The text that a client has sent -/

/-- A client has sent this text, and it has not been replaced since. -/
def SentText (s : ClientMimes) (b : List BinaryClipboard) (text : Counted 32 Byte) : Prop :=
  s.textFromClient = true ∧ (b.find? (·.mime.bytes = textPlain)).map (·.data) = some text

/-- The Latin 1 conversion of a text, by its length. -/
def Latin1Of (text value : List Byte) : Prop :=
  ∃ cs, Decodes utf8ToUCS4 text cs ∧ value = cs.flatMap latin1

/-- Nothing is read outside, and the property is the text or its conversion. -/
def DeliversText (text : List Byte) (target : Atom) (result : Except ConvertFault PropertyValue) :
    Prop :=
  if target = xaUTF8_STRING then result = .ok (.bytes xaUTF8_STRING text)
  else ∃ value, Latin1Of text value ∧ result = .ok (.bytes xaSTRING value)

/-- The same for a text that is taken to end at its first zero, as it does for `utf8ToLatin1`. -/
def DeliversString (text : List Byte) (result : Except ConvertFault PropertyValue) : Prop :=
  ∃ value, utf8ToLatin1 text = .ok (value ++ [0]) ∧ result = .ok (.bytes xaSTRING value)

/-- The only zero of the text is its last byte, and all other characters are single bytes. -/
def ZeroEnded (text : List Byte) : Prop :=
  ∃ front, text = front ++ [0] ∧ 0 ∉ front ∧ ∀ i < front.length, charLength (text.drop i) = 1

/-! ## The conversion -/

section Convert

variable {text : Counted 32 Byte}

/-- The limit leaves at least two units beyond every text. -/
theorem limit_eq (text : Counted 32 Byte) :
    ∃ extra, 2 ≤ extra ∧ 2 ^ 64 - 1 = text.val.length + extra := by
  have hlength := text.2
  exact ⟨2 ^ 64 - 1 - text.val.length, by omega, by omega⟩

theorem length_buffer (cs : List ℕ) : (cs.flatMap latin1 ++ [0]).length = cs.length + 1 := by
  induction cs with
  | nil => rfl
  | cons c cs ih =>
    rw [List.flatMap_cons, List.append_assoc, List.length_append, ih, Nat.add_comm]
    rfl

/-- A text with a zero that the decoder comes to. -/
theorem vncUTF8ToLatin1_terminated {cs : List ℕ} (h : Terminated 0 utf8ToUCS4 text.val cs) :
    vncUTF8ToLatin1 text.val = .ok (cs.flatMap latin1 ++ [0]) := by
  obtain ⟨extra, hextra, hlimit⟩ := limit_eq text
  have hpass {σ : Type} (put : σ → ℕ → σ) (acc : σ) :
      walkFrom 0 utf8ToUCS4 put (text.val.length + 1) (2 ^ 64 - 1) text.val acc =
        .ok (cs.foldl put acc) := by
    rw [hlimit]
    rcases advances_utf8.walk_beyond hextra (Nat.lt_succ_self _) acc with
      ⟨ds, hds, hwalk⟩ | ⟨hnone, -⟩
    · rwa [h.chars.unique hds.chars]
    · exact absurd h (hnone cs)
  rw [vncUTF8ToLatin1, utf8ToLatin1Within, hpass, hpass, foldl_length, foldl_units,
    List.nil_append, ← filled_size]
  rfl

theorem vncUTF8ToLatin1_runs_on (h : ∀ cs, ¬Terminated 0 utf8ToUCS4 text.val cs) :
    vncUTF8ToLatin1 text.val = .error .readsPastText := by
  obtain ⟨extra, hextra, hlimit⟩ := limit_eq text
  have hpass : walkFrom 0 utf8ToUCS4 (fun sz ucs => sz + (latin1 ucs).length)
      (text.val.length + 1) (2 ^ 64 - 1) text.val 1 = .error .outOfBounds := by
    rw [hlimit]
    rcases advances_utf8.walk_beyond hextra (Nat.lt_succ_self _) 1 with
      ⟨ds, hds, -⟩ | ⟨-, hwalk⟩
    · exact absurd hds (h ds)
    · exact hwalk
  rw [vncUTF8ToLatin1, utf8ToLatin1Within, hpass]
  rfl

theorem zeroEnded_iff {src : List Byte} :
    ZeroEnded src ↔ ∃ cs, Terminated 0 utf8ToUCS4 src cs ∧ src.length = cs.length + 1 := by
  have hsingle : ZeroEnded src ↔ SingleUnits 0 utf8ToUCS4 src := by
    refine exists_congr fun front => and_congr_right' (and_congr_right' ?_)
    refine forall_congr' fun i => imp_congr_right fun _ => ?_
    rw [utf8ToUCS4_consumed]
  rw [hsingle]
  exact ⟨SingleUnits.terminated, fun ⟨_, hcs, hlength⟩ => advances_utf8.singleUnits hcs hlength⟩

/-- The bytes of a `STRING`. -/
def stringBytes (text : List Byte) : Except ConvertFault (List Byte) := do
  let latin1 ← vncUTF8ToLatin1 text
  copyProperty latin1 text.length

theorem stringBytes_zeroEnded (h : ZeroEnded text.val) :
    ∃ value, stringBytes text.val = .ok value ∧ Latin1Of text.val value ∧
      utf8ToLatin1 text.val = .ok value := by
  obtain ⟨cs, hcs, hlength⟩ := zeroEnded_iff.mp h
  have hbuffer : (cs.flatMap latin1 ++ [0]).length = text.val.length := by
    rw [length_buffer, hlength]
  have hsingle := advances_utf8.singleUnits hcs hlength
  refine ⟨cs.flatMap latin1 ++ [0], ?_, ⟨cs ++ [0], hsingle.decodes hcs rfl, ?_⟩, ?_⟩
  · rw [stringBytes, vncUTF8ToLatin1_terminated hcs]
    show copyProperty _ _ = _
    rw [copyProperty, if_pos hbuffer.ge, List.take_of_length_le hbuffer.le]
  · rw [List.flatMap_append]
    rfl
  · exact (convert_chars latin1 advances_utf8 hcs.chars).2.2

/-- Nothing else is converted without reading outside. -/
theorem zeroEnded_of_stringBytes {value : List Byte} (h : stringBytes text.val = .ok value) :
    ZeroEnded text.val := by
  rw [stringBytes] at h
  by_cases hterm : ∃ cs, Terminated 0 utf8ToUCS4 text.val cs
  · obtain ⟨cs, hcs⟩ := hterm
    rw [vncUTF8ToLatin1_terminated hcs] at h
    have hcopy : copyProperty (cs.flatMap latin1 ++ [0]) text.val.length = .ok value := h
    have hlt := advances_utf8.terminated_length_lt hcs
    refine zeroEnded_iff.mpr ⟨cs, hcs, Nat.le_antisymm ?_ hlt⟩
    by_contra hlong
    rw [copyProperty, length_buffer, if_neg hlong] at hcopy
    cases hcopy
  · rw [vncUTF8ToLatin1_runs_on (not_exists.mp hterm)] at h
    cases h

end Convert

/-! ## The request for a text -/

/-- The names of the configured types are none of those for text. -/
theorem text_not_configured {clipTypes : CString} {mime : List Byte}
    (h : mime ∈ parseClipTypes clipTypes) :
    mime ≠ xaSTRING ∧ mime ≠ xaTEXT ∧ mime ≠ xaUTF8_STRING := by
  obtain ⟨cur, hcur, rfl⟩ := List.mem_map.mp h
  have hallowed := (List.mem_filter.mp hcur).2
  have huncut {name : List Byte} (hshort : name.length < 31) (h : cur.take 31 = name) :
      cur = name := by
    have hlength := congrArg List.length h
    rw [List.length_take] at hlength
    rwa [List.take_of_length_le (by omega)] at h
  simp only [clipTypeAllowed, Bool.and_eq_true, decide_eq_true_eq] at hallowed
  obtain ⟨⟨⟨⟨-, htext⟩, hstring⟩, -⟩, hutf8⟩ := hallowed
  exact ⟨fun h => hstring (huncut (by decide) h), fun h => htext (huncut (by decide) h),
    fun h => hutf8 (huncut (by decide) h)⟩

section Request

variable {clipTypes : CString} {s : ClientMimes} {b : List BinaryClipboard}
  {text : Counted 32 Byte} {lastTimeChanged : BitVec 32} {target : Atom}

theorem getBinaryClipboardData_sent (h : SentText s b text) :
    getBinaryClipboardData b textPlain = text.val := by
  obtain ⟨e, he, hdata⟩ := Option.map_eq_some_iff.mp h.2
  rw [getBinaryClipboardData, he, ← hdata]

/-- The targets for text. -/
def textTargets : List Atom := [xaSTRING, xaTEXT, xaUTF8_STRING]

theorem clientHasBinaryAtom_text (htarget : target ∈ textTargets) :
    clientHasBinaryAtom (parseClipTypes clipTypes) s target = none := by
  refine List.find?_eq_none.mpr fun mime hmime => ?_
  obtain ⟨i, -, hi⟩ := List.mem_filterMap.mp hmime
  obtain ⟨hstring, htext, hutf8⟩ := text_not_configured (List.mem_of_getElem? hi)
  intro heq
  obtain rfl := of_decide_eq_true heq
  simp [textTargets, hstring, htext, hutf8] at htarget

/-- A request for text comes to the last branch. -/
theorem vncConvertSelection_text (h : SentText s b text) (htarget : target ∈ textTargets) :
    vncConvertSelection (parseClipTypes clipTypes) s b lastTimeChanged target =
      if target = xaUTF8_STRING then .ok (.bytes xaUTF8_STRING text.val)
      else (stringBytes text.val).map (.bytes xaSTRING) := by
  have hnone : clientHasBinaryAtom (parseClipTypes clipTypes) s target = none :=
    clientHasBinaryAtom_text htarget
  have hother : ∀ t ∈ textTargets, t ≠ xaTARGETS ∧ t ≠ xaTIMESTAMP := by decide
  have hlatin1 : ∀ t ∈ textTargets, (t = xaSTRING ∨ t = xaTEXT) ↔ t ≠ xaUTF8_STRING := by decide
  rw [vncConvertSelection, if_neg (hother _ htarget).1, if_neg (hother _ htarget).2, hnone]
  dsimp only
  rw [if_pos h.1, getBinaryClipboardData_sent h]
  by_cases hutf8 : target = xaUTF8_STRING
  · rw [if_neg fun hor => (hlatin1 _ htarget).mp hor hutf8, if_pos hutf8, if_pos hutf8]
  · rw [if_pos ((hlatin1 _ htarget).mpr hutf8), if_neg hutf8, stringBytes]
    cases vncUTF8ToLatin1 text.val with
    | error e => rfl
    | ok latin1 =>
      show copyProperty latin1 text.val.length >>= _ =
        (copyProperty latin1 text.val.length).map _
      cases copyProperty latin1 text.val.length with
      | error e => rfl
      | ok value => rfl

/-- **Pasting a client's text.** `UTF8_STRING` gives the text. Anything else gives the conversion
of the text, and stays inside of it and of the buffer, only if the text brings its own terminator
and has single bytes besides; and the terminator is in the property then. -/
theorem delivers_text_iff (clipTypes : CString) (s : ClientMimes) (b : List BinaryClipboard)
    (text : Counted 32 Byte) (lastTimeChanged : BitVec 32) (target : Atom)
    (h : SentText s b text) (htarget : target ∈ textTargets) :
    let result := vncConvertSelection (parseClipTypes clipTypes) s b lastTimeChanged target
    (DeliversText text.val target result ↔ target = xaUTF8_STRING ∨ ZeroEnded text.val) ∧
      (target ≠ xaUTF8_STRING → ¬DeliversString text.val result) := by
  intro result
  have hresult : result = _ := vncConvertSelection_text h htarget
  by_cases hutf8 : target = xaUTF8_STRING
  · rw [if_pos hutf8] at hresult
    rw [DeliversText, if_pos hutf8]
    exact ⟨iff_of_true hresult (Or.inl hutf8), fun hne => absurd hutf8 hne⟩
  · rw [if_neg hutf8] at hresult
    have hbytes {value : List Byte} (h : result = .ok (.bytes xaSTRING value)) :
        stringBytes text.val = .ok value := by
      rw [hresult] at h
      cases hstring : stringBytes text.val with
      | error e =>
        rw [hstring] at h
        cases h
      | ok value' =>
        rw [hstring] at h
        cases h
        rfl
    rw [DeliversText, if_neg hutf8, or_iff_right hutf8]
    refine ⟨⟨?_, ?_⟩, fun _ => ?_⟩
    · rintro ⟨value, -, hok⟩
      exact zeroEnded_of_stringBytes (hbytes hok)
    · intro hzero
      obtain ⟨value, hvalue, hlatin1, -⟩ := stringBytes_zeroEnded hzero
      exact ⟨value, hlatin1, by rw [hresult, hvalue]; rfl⟩
    · rintro ⟨value, hconverted, hok⟩
      obtain ⟨value', hvalue, -, hconverted'⟩ :=
        stringBytes_zeroEnded (zeroEnded_of_stringBytes (hbytes hok))
      obtain rfl := Except.ok.inj (hvalue.symm.trans (hbytes hok))
      have hshort := congrArg List.length (Except.ok.inj (hconverted'.symm.trans hconverted))
      rw [List.length_append] at hshort
      exact absurd hshort (Nat.ne_of_lt (Nat.lt_succ_self _))

end Request

/-! ## Texts that are read outside -/

def plainOf (text : Counted 32 Byte) : List BinaryClipboard := [.make textPlain text 0]

/-- A text of the client, with nothing else. -/
theorem sentText_plainOf (text : Counted 32 Byte) :
    SentText ⟨[], 0, true⟩ (plainOf text) text := by
  have hmime : (CString.ofBuffer (textPlain.take 31)).bytes = textPlain := by decide
  have hfind : (plainOf text).find? (·.mime.bytes = textPlain) = some (.make textPlain text 0) :=
    List.find?_cons_of_pos (decide_eq_true hmime)
  exact ⟨rfl, congrArg (Option.map (·.data)) hfind⟩

theorem not_delivers_error (text : List Byte) {target : Atom} (htarget : target ≠ xaUTF8_STRING)
    (e : ConvertFault) : ¬DeliversText text target (.error e) := by
  rw [DeliversText, if_neg htarget]
  rintro ⟨value, -, hok⟩
  cases hok

def cafe : Counted 32 Byte := ⟨[0x63, 0x61, 0x66, 0xC3, 0xA9], by decide⟩

def cafeZero : Counted 32 Byte := ⟨[0x63, 0x61, 0x66, 0xC3, 0xA9, 0], by decide⟩

/-- The conversion goes on behind the text, or the property behind the conversion. -/
theorem paste_reads_outside :
    let paste := fun text target =>
      vncConvertSelection (parseClipTypes .empty) ⟨[], 0, true⟩ (plainOf text) 0 target
    (paste cafe xaSTRING = .error .readsPastText ∧
        ¬DeliversText cafe.val xaSTRING (paste cafe xaSTRING)) ∧
      paste cafeZero xaTEXT = .error .readsPastBuffer ∧
        ¬DeliversText cafeZero.val xaTEXT (paste cafeZero xaTEXT) := by
  intro paste
  have hcafe : paste cafe xaSTRING = .error .readsPastText := by decide +kernel
  have hzero : paste cafeZero xaTEXT = .error .readsPastBuffer := by decide +kernel
  rw [hcafe, hzero]
  exact ⟨⟨rfl, not_delivers_error _ (by decide) _⟩, rfl, not_delivers_error _ (by decide) _⟩

/-- Without the accent, and with its terminator. -/
def plainCafe : Counted 32 Byte := ⟨[0x63, 0x61, 0x66, 0x65, 0], by decide⟩

/-- A text as such, and one of single bytes that ends in its only zero, converted. -/
theorem delivers_text_cafe :
    DeliversText cafe.val xaUTF8_STRING
        (vncConvertSelection (parseClipTypes .empty) ⟨[], 0, true⟩ (plainOf cafe) 0
          xaUTF8_STRING) ∧
      DeliversText plainCafe.val xaTEXT
        (vncConvertSelection (parseClipTypes .empty) ⟨[], 0, true⟩ (plainOf plainCafe) 0
          xaTEXT) := by
  refine ⟨?_, ?_⟩
  · exact (delivers_text_iff .empty _ _ _ 0 _ (sentText_plainOf cafe) (by decide)).1.mpr
      (Or.inl rfl)
  · refine (delivers_text_iff .empty _ _ _ 0 _ (sentText_plainOf plainCafe)
      (by decide)).1.mpr (Or.inr ⟨[0x63, 0x61, 0x66, 0x65], rfl, by decide, by decide⟩)

end KasmVNC.Unix
