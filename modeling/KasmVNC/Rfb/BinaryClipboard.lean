import KasmVNC.Lib.Run
import KasmVNC.Lib.Text
import KasmVNC.Rfb.ClientMessage

/-!
# The binary clipboard

A connection has one vector for the clipboard entries of the server and of the client. What
the server has put there is written by a timer, a while later.
-/

namespace KasmVNC.Rfb

open KasmVNC.Lib Reader

/-! ## Entries -/

/-- `binaryClipboard_t` -/
structure BinaryClipboard where
  mime : CString
  mime_lt : mime.bytes.length < 32
  id : BitVec 32
  data : Counted 32 Byte

namespace BinaryClipboard

theorem length_mime_lt (mime : List Byte) : (CString.ofBuffer (mime.take 31)).bytes.length < 32 :=
  calc (CString.ofBuffer (mime.take 31)).bytes.length
      ≤ (mime.take 31).length := (List.takeWhile_prefix _).length_le
    _ ≤ 31 := List.length_take_le 31 mime
    _ < 32 := by decide

/-- The entry `addBinaryClipboard` makes: longer types are cut. -/
def make (mime : List Byte) (data : Counted 32 Byte) (id : BitVec 32) : BinaryClipboard where
  mime := CString.ofBuffer (mime.take 31)
  mime_lt := length_mime_lt mime
  id := id
  data := data

/-- What is written for an entry. -/
def bytes (e : BinaryClipboard) : List Byte :=
  be32 e.id ++ ([BitVec.ofNat 8 e.mime.bytes.length] ++ (e.mime.bytes ++
    (be32 e.data.count ++ e.data.val)))

/-- The fields of an entry. -/
def fields (e : BinaryClipboard) : BitVec 32 × List Byte × List Byte :=
  (e.id, e.mime.bytes, e.data.val)

theorem fields_injective : Function.Injective fields := by
  rintro ⟨mime, hmime, id, data⟩ ⟨mime', hmime', id', data'⟩ h
  obtain ⟨hid, hbytes, hdata⟩ : id = id' ∧ mime.bytes = mime'.bytes ∧ data.val = data'.val := by
    simpa [fields] using h
  cases hid
  cases CString.ext hbytes
  cases Subtype.ext hdata
  rfl

/-- A reader of entries, as the receiver may have one. -/
def read : Reader Unit (BitVec 32 × List Byte × List Byte) := do
  let id ← readU32
  let mimelen ← readU8
  let mime ← readBytes mimelen.toNat
  let len ← readU32
  let data ← readBytes len.toNat
  pure (id, mime, data)

theorem reads_read (e : BinaryClipboard) : Reads read e.bytes e.fields := by
  have hmime : (BitVec.ofNat 8 e.mime.bytes.length).toNat = e.mime.bytes.length := by
    rw [BitVec.toNat_ofNat, Nat.mod_eq_of_lt (e.mime_lt.trans (by decide))]
  unfold read bytes
  refine (reads_u32 _).read ((reads_u8 _).read ?_)
  rw [hmime]
  refine (reads_bytes _).read ((reads_u32 _).read ?_)
  exact Consumes.last (reads_counted _) rfl

/-- What is written for lists of equal length tells them apart. -/
theorem flatMap_bytes_injective {b b' : List BinaryClipboard} (hlength : b.length = b'.length)
    (hbytes : b.flatMap bytes = b'.flatMap bytes) : b = b' := by
  have h := reads_many reads_read b
  have h' := reads_many reads_read b'
  rw [hlength, hbytes] at h
  exact List.map_injective_iff.mpr fields_injective (h.unique h')

end BinaryClipboard

/-! ## The writer -/

/-- The loop of `writeBinaryClipboard`, whose counter is a byte; `none` if it runs on. -/
def writeEntries (b : List BinaryClipboard) : ℕ → BitVec 8 → Option (List Byte)
  | 0, _ => none
  | fuel + 1, i =>
    match b[i.toNat]? with
    | some e => (writeEntries b fuel (i + 1)).map (e.bytes ++ ·)
    | none => some []

/-- `SMsgWriter::writeBinaryClipboard` -/
def writeBinaryClipboard (b : List BinaryClipboard) (fuel : ℕ) : Option (List Byte) :=
  (writeEntries b fuel 0).map fun entries =>
    BitVec.ofNat 8 msgTypeBinaryClipboard :: BitVec.ofNat 8 b.length :: entries

section Writer

variable {b : List BinaryClipboard}

/-- With 256 entries or more, the counter starts over before it gets to the end. -/
theorem writeEntries_endless (h : 2 ^ 8 ≤ b.length) : ∀ (fuel : ℕ) (i : BitVec 8),
    writeEntries b fuel i = none
  | 0, _ => rfl
  | fuel + 1, i => by
    have hlt : i.toNat < b.length := i.isLt.trans_le h
    rw [writeEntries, List.getElem?_eq_getElem hlt]
    show Option.map _ (writeEntries b fuel (i + 1)) = none
    rw [writeEntries_endless h fuel]
    rfl

/-- What is written, if the loop comes to its end: all entries from the counter on. -/
theorem writeEntries_some (h : b.length < 2 ^ 8) : ∀ {fuel : ℕ} {i : BitVec 8} {out : List Byte},
    writeEntries b fuel i = some out → out = (b.drop i.toNat).flatMap BinaryClipboard.bytes
  | fuel + 1, i, out, hout => by
    rw [writeEntries] at hout
    rcases Nat.lt_or_ge i.toNat b.length with hlt | hge
    · rw [List.getElem?_eq_getElem hlt] at hout
      obtain ⟨rest, hrest, rfl⟩ := Option.map_eq_some_iff.mp hout
      have hnext : (i + 1).toNat = i.toNat + 1 := by
        rw [BitVec.toNat_add]
        exact Nat.mod_eq_of_lt (Nat.lt_of_le_of_lt hlt h)
      rw [writeEntries_some h hrest, hnext, List.drop_eq_getElem_cons hlt, List.flatMap_cons]
    · rw [List.getElem?_eq_none hge] at hout
      rw [List.drop_eq_nil_of_le hge]
      exact (Option.some.inj hout).symm

theorem writeEntries_ends (h : b.length < 2 ^ 8) : ∀ {k : ℕ} {i : BitVec 8},
    i.toNat + k = b.length → ∃ out, writeEntries b (k + 1) i = some out
  | 0, i, hi => by
    have hend : b.length ≤ i.toNat := le_of_eq hi.symm
    exact ⟨[], by rw [writeEntries, List.getElem?_eq_none hend]⟩
  | k + 1, i, hi => by
    have hlt : i.toNat < b.length := by omega
    have hnext : (i + 1).toNat = i.toNat + 1 := by
      rw [BitVec.toNat_add]
      exact Nat.mod_eq_of_lt (Nat.lt_of_le_of_lt hlt h)
    obtain ⟨rest, hrest⟩ := writeEntries_ends h (k := k) (i := i + 1) (by omega)
    refine ⟨b[i.toNat].bytes ++ rest, ?_⟩
    rw [writeEntries, List.getElem?_eq_getElem hlt]
    exact Option.map_eq_some_iff.mpr ⟨rest, hrest, rfl⟩

end Writer

/-- The message with these entries, whose count fits its byte. -/
def clipboardMessage (entries : List BinaryClipboard) : List Byte :=
  BitVec.ofNat 8 msgTypeBinaryClipboard :: BitVec.ofNat 8 entries.length ::
    entries.flatMap BinaryClipboard.bytes

/-- The writer comes to its end with the message of these entries exactly if it has been given
them, and there are not too many. -/
theorem writes_message_iff {b entries : List BinaryClipboard} :
    (entries.length < 2 ^ 8 ∧
        ∃ fuel, writeBinaryClipboard b fuel = some (clipboardMessage entries)) ↔
      b = entries ∧ entries.length < 2 ^ 8 := by
  constructor
  · rintro ⟨hfew, _, hout⟩
    obtain ⟨out, hloop, hmessage⟩ := Option.map_eq_some_iff.mp hout
    have hb : b.length < 2 ^ 8 := by
      by_contra hmany
      rw [writeEntries_endless (Nat.not_lt.mp hmany)] at hloop
      cases hloop
    obtain ⟨hcount, hentries⟩ : BitVec.ofNat 8 b.length = BitVec.ofNat 8 entries.length ∧
        out = entries.flatMap BinaryClipboard.bytes := by
      simpa [clipboardMessage] using hmessage
    have hlength : b.length = entries.length := by
      have h := congrArg BitVec.toNat hcount
      rwa [BitVec.toNat_ofNat, BitVec.toNat_ofNat, Nat.mod_eq_of_lt hb, Nat.mod_eq_of_lt hfew] at h
    exact ⟨BinaryClipboard.flatMap_bytes_injective hlength
      ((writeEntries_some hb hloop).symm.trans hentries), hfew⟩
  · rintro ⟨rfl, hfew⟩
    obtain ⟨out, hloop⟩ := writeEntries_ends hfew (k := b.length) (i := 0) (Nat.zero_add _)
    refine ⟨hfew, b.length + 1, Option.map_eq_some_iff.mpr ⟨out, hloop, ?_⟩⟩
    rw [writeEntries_some hfew hloop]
    rfl

/-! ## The connection -/

/-- What sending depends on. -/
structure SendSettings where
  /-- `accessRights & AccessCutText` -/
  mayCutText : Bool
  sendCutText : Bool
  /-- `DLP_ClipSendMax`, no limit if it is zero -/
  clipSendMax : ℕ
  /-- `state() == RFBSTATE_NORMAL` -/
  normal : Bool

/-- The connection's clipboard. The last two members only record what has happened. -/
structure ClipboardConn where
  binaryClipboard : List BinaryClipboard
  /-- `binclipTimer` is running. -/
  timer : Bool
  /-- What the server has queued since its last clear. -/
  queued : List BinaryClipboard
  /-- The client's last message since then: what the server had queued at that time, and what
  the client sent. -/
  received : Option (List BinaryClipboard × List BinaryClipboard)

inductive ClipboardEvent
  /-- `clearBinaryClipboardData` -/
  | clear
  /-- `sendBinaryClipboardDataOrClose` -/
  | send (settings : SendSettings) (mime : List Byte) (data : Counted 32 Byte) (id : BitVec 32)
  /-- `readBinaryClipboard` -/
  | receive (settings : ReaderSettings) (entries : Counted 8 WireClipboard)
  /-- `binclipTimer` has run out; `tooSoon` if `DLP_ClipDelay` has not passed yet. -/
  | expire (tooSoon : Bool)

namespace ClipboardConn

def start : ClipboardConn := ⟨[], false, [], none⟩

/-- The entries of a client's message that are not too large. -/
def entriesOf (settings : ReaderSettings) (entries : List WireClipboard) : List BinaryClipboard :=
  (entries.filter (·.accepted settings)).map fun e => .make e.mime.val e.data 0

def step (c : ClipboardConn) : ClipboardEvent → ClipboardConn
  | .clear => { c with binaryClipboard := [], queued := [], received := none }
  | .send settings mime data id =>
    if !settings.mayCutText || !settings.sendCutText ||
        (settings.clipSendMax ≠ 0 && data.val.length > settings.clipSendMax) ||
        !settings.normal then c
    else
      let e := BinaryClipboard.make mime data id
      { c with
        binaryClipboard := c.binaryClipboard ++ [e]
        timer := true
        queued := c.queued ++ [e] }
  | .receive settings entries =>
    let theirs := entriesOf settings entries.val
    { c with binaryClipboard := theirs, received := some (c.queued, theirs) }
  | .expire _ => { c with timer := false }

/-- A message is written when the timer runs out, unless it is too soon. -/
def Writes (c : ClipboardConn) : ClipboardEvent → Prop
  | .expire tooSoon => c.timer = true ∧ tooSoon = false
  | _ => False

/-- A message that is written ends, and carries what the server has queued. -/
def WritesQueued (c : ClipboardConn) (e : ClipboardEvent) : Prop :=
  c.Writes e → c.queued.length < 2 ^ 8 ∧
    ∃ fuel, writeBinaryClipboard c.binaryClipboard fuel = some (clipboardMessage c.queued)

/-- The client has sent nothing since the server's last clear, or just what the server had
queued, and there are not too many entries. -/
def Undisturbed (c : ClipboardConn) (e : ClipboardEvent) : Prop :=
  c.Writes e → (∀ p ∈ c.received, p.2 = p.1) ∧ c.queued.length < 2 ^ 8

/-- What is in the vector, told from what has happened. -/
def Recorded (c : ClipboardConn) : Prop :=
  match c.received with
  | none => c.binaryClipboard = c.queued
  | some (mine, theirs) =>
    ∃ later, c.queued = mine ++ later ∧ c.binaryClipboard = theirs ++ later

theorem recorded_step {c : ClipboardConn} (e : ClipboardEvent) (h : c.Recorded) :
    (c.step e).Recorded := by
  cases e with
  | clear => exact rfl
  | send settings mime data id =>
    unfold step
    dsimp only
    split
    · exact h
    · unfold Recorded at h ⊢
      dsimp only
      split at h
      · exact congrArg (· ++ _) h
      · obtain ⟨later, hqueued, hclipboard⟩ := h
        exact ⟨later ++ [.make mime data id], by rw [hqueued, List.append_assoc],
          by rw [hclipboard, List.append_assoc]⟩
  | receive settings entries => exact ⟨[], (List.append_nil _).symm, (List.append_nil _).symm⟩
  | expire tooSoon => exact h

theorem eq_queued_iff {c : ClipboardConn} (h : c.Recorded) :
    c.binaryClipboard = c.queued ↔ ∀ p ∈ c.received, p.2 = p.1 := by
  unfold Recorded at h
  split at h
  · next hnone => simp [hnone, h]
  · next mine theirs hsome =>
      obtain ⟨later, hqueued, hclipboard⟩ := h
      rw [hsome, hqueued, hclipboard, List.append_left_inj]
      simp

theorem writesQueued_iff {c : ClipboardConn} (h : c.Recorded) (e : ClipboardEvent) :
    c.WritesQueued e ↔ c.Undisturbed e := by
  refine imp_congr_right fun _ => ?_
  rw [writes_message_iff, eq_queued_iff h]

/-- **What the clipboard messages carry**, over every run of a connection. -/
theorem writes_queued_iff (es : List ClipboardEvent) :
    Guarded step WritesQueued start es ↔ Guarded step Undisturbed start es := by
  have hstart : start.Recorded := rfl
  constructor
  · exact guarded_imp (fun c e h _ => recorded_step e h)
      (fun c e h hwrites => (writesQueued_iff h e).mp hwrites) hstart
  · exact guarded_imp (fun c e h _ => recorded_step e h)
      (fun c e h hguard => (writesQueued_iff h e).mpr hguard) hstart

/-! ## Both directions at once -/

/-- The server queues a text, and before the timer runs out the client sends an empty
clipboard. -/
theorem clipboard_overwritten :
    ¬Guarded step WritesQueued start
      [.send ⟨true, true, 0, true⟩ (ascii "text/plain") ⟨[0x61], by decide⟩ 7,
        .receive ⟨false, false, 0, id⟩ ⟨[], by decide⟩, .expire false] := by
  rintro ⟨-, -, hwrites, -⟩
  have hsame := (writes_message_iff.mp (hwrites ⟨rfl, rfl⟩)).1
  cases hsame

end ClipboardConn

end KasmVNC.Rfb
