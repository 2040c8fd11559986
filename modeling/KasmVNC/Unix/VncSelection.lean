import KasmVNC.Lib.Run
import KasmVNC.Lib.Text
import KasmVNC.Rfb.ClientMessage

/-!
# The clipboard types of a client

The X server keeps, for the selection it owns on a client's behalf, which of the
configured types the client has announced. They go into a table with one place for
each configured type. Plain text is not among those and has a flag of its own.
-/

namespace KasmVNC.Unix

open KasmVNC.Lib KasmVNC.Rfb

/-! ## The configured types -/

def textPlain : List Byte := ascii "text/plain"

/-- The hardcoded filters of `parseClipTypes`, and the skipped empty items. -/
def clipTypeAllowed (cur : List Byte) : Bool :=
  cur ≠ [] && cur ≠ ascii "TEXT" && cur ≠ ascii "STRING" && (strstr textPlain cur).isNone &&
    cur ≠ ascii "UTF8_STRING"

/-- `parseClipTypes`: the types in `DLP_ClipTypes`, each cut to its field. -/
def parseClipTypes (str : CString) : List (List Byte) :=
  ((str.bytes.splitOn 0x2C).filter clipTypeAllowed).map (·.take 31)

/-! ## Announcements -/

/-- A write outside the table, at this place. -/
structure OutOfTable where
  index : ℕ
deriving DecidableEq

/-- The static variables of `vncSelection.c` that announcements go into. -/
structure ClientMimes where
  mimeIndexesFromClient : List ℕ
  numMimesFromClient : ℕ
  textFromClient : Bool
deriving DecidableEq

namespace ClientMimes

section

variable (mimetypes : List (List Byte))

/-- `vncSelectionInit` -/
def init : ClientMimes := ⟨List.replicate mimetypes.length 0, 0, false⟩

/-- `mimeIndexesFromClient[valid] = j` -/
def store (s : ClientMimes) (valid j : ℕ) : Except OutOfTable ClientMimes :=
  if valid < s.mimeIndexesFromClient.length then
    .ok { s with mimeIndexesFromClient := s.mimeIndexesFromClient.set valid j }
  else .error ⟨valid⟩

/-- The body of the loop, for one of the client's types; the number is `valid`. -/
def announceMime (s : ClientMimes × ℕ) (mime : List Byte) :
    Except OutOfTable (ClientMimes × ℕ) := do
  let s ← match mimetypes.findIdx? (· == mime) with
    | some j => (s.1.store s.2 j).map fun s' => (s', s.2 + 1)
    | none => .ok s
  .ok (if mime = textPlain then { s.1 with textFromClient := true } else s.1, s.2)

/-- `vncHandleClipboardAnnounceBinary` -/
def announce (s : ClientMimes) (mimes : List (List Byte)) : Except OutOfTable ClientMimes :=
  if mimes ≠ [] then
    (mimes.foldlM (announceMime mimetypes) (s, 0)).map fun s =>
      { s.1 with numMimesFromClient := s.2 }
  else .ok { s with numMimesFromClient := 0, textFromClient := false }

end

end ClientMimes

/-- A BinaryClipboard message, with the server's limit for its entries. -/
structure ClipboardMsg where
  settings : ReaderSettings
  entries : Counted 8 WireClipboard

/-- The types `readBinaryClipboard` hands on. -/
def ClipboardMsg.mimes (m : ClipboardMsg) : List (List Byte) :=
  (m.entries.val.filter (·.accepted m.settings)).map fun e => (cString e.mime.val).take 31

namespace ClientMimes

variable (mimetypes : List (List Byte))

def receive (s : ClientMimes) (m : ClipboardMsg) : Except OutOfTable ClientMimes :=
  s.announce mimetypes m.mimes

/-- The message is handled within the table, and leaves the flag in step with it. -/
def InStep (s : ClientMimes) (m : ClipboardMsg) : Prop :=
  ∃ s', s.receive mimetypes m = .ok s' ∧ s'.numMimesFromClient ≤ mimetypes.length ∧
    (s'.textFromClient ↔ textPlain ∈ m.mimes)

/-- No more known names than there are types, repetitions counted; and a message without
plain text is empty, or plain text has not been announced so far. -/
def Fits (s : ClientMimes) (m : ClipboardMsg) : Prop :=
  m.mimes.countP (· ∈ mimetypes) ≤ mimetypes.length ∧
    (m.mimes = [] ∨ textPlain ∈ m.mimes ∨ ¬ s.textFromClient)

/-! ## One message -/

section Announce

variable {mimetypes} {s : ClientMimes} {valid : ℕ}

theorem findIdx?_eq_none_iff {mime : List Byte} :
    mimetypes.findIdx? (· == mime) = none ↔ mime ∉ mimetypes := by
  rw [List.findIdx?_eq_none_iff]
  constructor
  · intro h hmem
    simpa using h mime hmem
  · intro h m hm
    have hne : m ≠ mime := by
      rintro rfl
      exact h hm
    simpa using hne

/-- The places that one type takes. -/
def places (mimetypes : List (List Byte)) (mime : List Byte) : ℕ :=
  if mime ∈ mimetypes then 1 else 0

theorem announceMime_ok {mime : List Byte}
    (hroom : valid + places mimetypes mime ≤ s.mimeIndexesFromClient.length) :
    ∃ s', announceMime mimetypes (s, valid) mime = .ok (s', valid + places mimetypes mime) ∧
      s'.mimeIndexesFromClient.length = s.mimeIndexesFromClient.length ∧
      (s'.textFromClient ↔ s.textFromClient ∨ mime = textPlain) := by
  unfold announceMime places at *
  cases hfind : mimetypes.findIdx? (· == mime) with
  | none =>
    rw [if_neg (findIdx?_eq_none_iff.mp hfind)]
    refine ⟨_, rfl, ?_, ?_⟩
    · split_ifs <;> rfl
    · split_ifs with htext
      · simp [htext]
      · simp [htext]
  | some j =>
    have hmem : mime ∈ mimetypes := by
      by_contra hnot
      rw [findIdx?_eq_none_iff.mpr hnot] at hfind
      cases hfind
    rw [if_pos hmem] at hroom ⊢
    refine ⟨if mime = textPlain then
        { s with
          mimeIndexesFromClient := s.mimeIndexesFromClient.set valid j
          textFromClient := true }
      else { s with mimeIndexesFromClient := s.mimeIndexesFromClient.set valid j }, ?_, ?_, ?_⟩
    · have hstore : s.store valid j =
          .ok { s with mimeIndexesFromClient := s.mimeIndexesFromClient.set valid j } :=
        if_pos hroom
      show ((s.store valid j).map fun s' => (s', valid + 1)) >>= _ = _
      rw [hstore]
      rfl
    · split_ifs
      · exact List.length_set
      · exact List.length_set
    · split_ifs with htext
      · simp [htext]
      · simp [htext]

theorem announceMime_error {mime : List Byte} (hmem : mime ∈ mimetypes)
    (hfull : s.mimeIndexesFromClient.length ≤ valid) :
    announceMime mimetypes (s, valid) mime = .error ⟨valid⟩ := by
  unfold announceMime
  cases hfind : mimetypes.findIdx? (· == mime) with
  | none => exact absurd hmem (findIdx?_eq_none_iff.mp hfind)
  | some j =>
    have hstore : s.store valid j = .error ⟨valid⟩ := if_neg (Nat.not_lt.mpr hfull)
    show ((s.store valid j).map fun s' => (s', valid + 1)) >>= _ = _
    rw [hstore]
    rfl

theorem countP_cons (mime : List Byte) (mimes : List (List Byte)) :
    (mime :: mimes).countP (· ∈ mimetypes) =
      places mimetypes mime + mimes.countP (· ∈ mimetypes) := by
  rw [List.countP_cons, Nat.add_comm]
  simp [places]

/-- The loop as long as there is room. -/
theorem foldlM_announce_ok (mimes : List (List Byte)) : ∀ {s : ClientMimes} {valid : ℕ},
    valid + mimes.countP (· ∈ mimetypes) ≤ s.mimeIndexesFromClient.length →
    ∃ s', mimes.foldlM (announceMime mimetypes) (s, valid) =
        .ok (s', valid + mimes.countP (· ∈ mimetypes)) ∧
      s'.mimeIndexesFromClient.length = s.mimeIndexesFromClient.length ∧
      (s'.textFromClient ↔ s.textFromClient ∨ textPlain ∈ mimes) := by
  induction mimes with
  | nil =>
    intro s valid _
    exact ⟨s, rfl, rfl, by simp⟩
  | cons mime mimes ih =>
    intro s valid hroom
    rw [countP_cons, ← Nat.add_assoc] at hroom ⊢
    obtain ⟨s₁, hstep, hlength, htext⟩ := announceMime_ok (Nat.le_of_add_right_le hroom)
    obtain ⟨s', hrest, hlength', htext'⟩ := ih (hlength.symm ▸ hroom)
    refine ⟨s', ?_, hlength'.trans hlength, ?_⟩
    · rw [List.foldlM_cons, hstep]
      exact hrest
    · rw [htext', htext, List.mem_cons, or_assoc, eq_comm (a := mime)]

/-- The loop runs out of the table with the first name too many. -/
theorem foldlM_announce_error (mimes : List (List Byte)) : ∀ {s : ClientMimes} {valid : ℕ},
    valid ≤ s.mimeIndexesFromClient.length →
    s.mimeIndexesFromClient.length < valid + mimes.countP (· ∈ mimetypes) →
    ∃ e, mimes.foldlM (announceMime mimetypes) (s, valid) = .error e := by
  induction mimes with
  | nil => exact fun hvalid hmany => absurd hmany (Nat.not_lt.mpr hvalid)
  | cons mime mimes ih =>
    intro s valid hvalid hmany
    rw [countP_cons, ← Nat.add_assoc] at hmany
    rw [List.foldlM_cons]
    by_cases hroom : valid + places mimetypes mime ≤ s.mimeIndexesFromClient.length
    · obtain ⟨s₁, hstep, hlength, -⟩ := announceMime_ok hroom
      rw [← hlength] at hroom hmany
      obtain ⟨e, he⟩ := ih hroom hmany
      exact ⟨e, by rw [hstep]; exact he⟩
    · have hmem : mime ∈ mimetypes := by
        by_contra hnot
        rw [places, if_neg hnot] at hroom
        exact hroom hvalid
      rw [places, if_pos hmem] at hroom
      have hfull : s.mimeIndexesFromClient.length ≤ valid := by omega
      exact ⟨_, by rw [announceMime_error hmem hfull]; rfl⟩

end Announce

section Messages

variable {mimetypes} {s : ClientMimes}

/-- The table is the one `vncSelectionInit` has allocated. -/
def Allocated (mimetypes : List (List Byte)) (s : ClientMimes) : Prop :=
  s.mimeIndexesFromClient.length = mimetypes.length

theorem allocated_init : Allocated mimetypes (init mimetypes) := List.length_replicate

/-- A message with no more known names than types. -/
theorem receive_ok (hs : s.Allocated mimetypes) {m : ClipboardMsg}
    (hfew : m.mimes.countP (· ∈ mimetypes) ≤ mimetypes.length) :
    ∃ s', s.receive mimetypes m = .ok s' ∧ s'.Allocated mimetypes ∧
      s'.numMimesFromClient = m.mimes.countP (· ∈ mimetypes) ∧
      (s'.textFromClient ↔ m.mimes ≠ [] ∧ (s.textFromClient ∨ textPlain ∈ m.mimes)) := by
  unfold receive announce
  by_cases hempty : m.mimes = []
  · rw [if_neg (not_not.mpr hempty), hempty]
    exact ⟨_, rfl, hs, rfl, by simp⟩
  · rw [if_pos hempty]
    have hroom : 0 + m.mimes.countP (· ∈ mimetypes) ≤ s.mimeIndexesFromClient.length := by
      rwa [Nat.zero_add, hs]
    obtain ⟨s', hloop, hlength, htext⟩ := foldlM_announce_ok m.mimes hroom
    rw [hloop]
    exact ⟨_, rfl, hlength.trans hs, Nat.zero_add _, htext.trans (and_iff_right hempty).symm⟩

theorem receive_error (hs : s.Allocated mimetypes) {m : ClipboardMsg}
    (hmany : mimetypes.length < m.mimes.countP (· ∈ mimetypes)) :
    ∃ e, s.receive mimetypes m = .error e := by
  have hne : m.mimes ≠ [] := by
    intro hempty
    rw [hempty] at hmany
    exact absurd hmany (Nat.not_lt_zero _)
  have hover : s.mimeIndexesFromClient.length < 0 + m.mimes.countP (· ∈ mimetypes) := by
    rwa [Nat.zero_add, hs]
  obtain ⟨e, he⟩ := foldlM_announce_error m.mimes (Nat.zero_le _) hover
  exact ⟨e, by rw [receive, announce, if_pos hne, he]; rfl⟩

theorem receive_allocated (hs : s.Allocated mimetypes) {m : ClipboardMsg} {s' : ClientMimes}
    (h : s.receive mimetypes m = .ok s') : s'.Allocated mimetypes := by
  rcases Nat.lt_or_ge mimetypes.length (m.mimes.countP (· ∈ mimetypes)) with hmany | hfew
  · obtain ⟨e, he⟩ := receive_error hs hmany
    cases he.symm.trans h
  · obtain ⟨s'', hs'', halloc, -⟩ := receive_ok hs hfew
    obtain rfl := Except.ok.inj (hs''.symm.trans h)
    exact halloc

theorem inStep_iff (hs : s.Allocated mimetypes) (m : ClipboardMsg) :
    s.InStep mimetypes m ↔ s.Fits mimetypes m := by
  rcases Nat.lt_or_ge mimetypes.length (m.mimes.countP (· ∈ mimetypes)) with hmany | hfew
  · obtain ⟨e, he⟩ := receive_error hs hmany
    constructor
    · rintro ⟨s', hs', -⟩
      cases he.symm.trans hs'
    · rintro ⟨hfew, -⟩
      exact absurd hmany (Nat.not_lt.mpr hfew)
  · obtain ⟨s', hs', -, hnum, htext⟩ := receive_ok hs hfew
    have hflag : (s'.textFromClient ↔ textPlain ∈ m.mimes) ↔
        (m.mimes = [] ∨ textPlain ∈ m.mimes ∨ ¬ s.textFromClient) := by
      rw [htext]
      by_cases hempty : m.mimes = []
      · simp [hempty]
      · by_cases hplain : textPlain ∈ m.mimes
        · simp [hempty, hplain]
        · simp [hempty, hplain]
    constructor
    · rintro ⟨s'', hs'', -, hin⟩
      obtain rfl := Except.ok.inj (hs'.symm.trans hs'')
      exact ⟨hfew, hflag.mp hin⟩
    · rintro ⟨-, hfits⟩
      exact ⟨s', hs', hnum.trans_le hfew, hflag.mpr hfits⟩

end Messages

end ClientMimes

/-- **The announced types stay in the table and in step**, over every sequence of messages,
exactly if each of them fits. -/
theorem clipboard_announcements_inStep_iff (clipTypes : CString) (ms : List ClipboardMsg) :
    let mimetypes := parseClipTypes clipTypes
    TryGuarded (ClientMimes.receive mimetypes) (ClientMimes.InStep mimetypes)
        (ClientMimes.init mimetypes) ms ↔
      TryGuarded (ClientMimes.receive mimetypes) (ClientMimes.Fits mimetypes)
        (ClientMimes.init mimetypes) ms := by
  intro mimetypes
  constructor
  · exact tryGuarded_imp (fun _ _ _ hs => ClientMimes.receive_allocated hs)
      (fun _ m hs hin => (ClientMimes.inStep_iff hs m).mp hin) ClientMimes.allocated_init
  · exact tryGuarded_imp (fun _ _ _ hs => ClientMimes.receive_allocated hs)
      (fun _ m hs hfits => (ClientMimes.inStep_iff hs m).mpr hfits) ClientMimes.allocated_init

/-- An entry without data, and a message of such. -/
def emptyEntry (mime : Counted 8 Byte) : WireClipboard := ⟨mime, ⟨[], by decide⟩⟩

def emptyMsg (entries : Counted 8 WireClipboard) : ClipboardMsg :=
  ⟨⟨false, false, 0, id⟩, entries⟩

def htmlEntry : WireClipboard := emptyEntry ⟨ascii "text/html", by decide⟩

def plainEntry : WireClipboard := emptyEntry ⟨textPlain, by decide⟩

/-- Three times the same type where two are configured; and plain text, followed by an
announcement without it. -/
theorem repeated_and_stale_announcements :
    let mimetypes := parseClipTypes ⟨ascii "text/html,image/png", by decide⟩
    ¬ TryGuarded (ClientMimes.receive mimetypes) (ClientMimes.InStep mimetypes)
        (ClientMimes.init mimetypes)
        [emptyMsg ⟨[htmlEntry, htmlEntry, htmlEntry], by decide⟩] ∧
      ¬ TryGuarded (ClientMimes.receive mimetypes) (ClientMimes.InStep mimetypes)
        (ClientMimes.init mimetypes)
        [emptyMsg ⟨[plainEntry], by decide⟩, emptyMsg ⟨[htmlEntry], by decide⟩] := by
  intro mimetypes
  constructor
  · rintro ⟨⟨s', hs', -⟩, -⟩
    have hover : (ClientMimes.init mimetypes).receive mimetypes
        (emptyMsg ⟨[htmlEntry, htmlEntry, htmlEntry], by decide⟩) = .error ⟨2⟩ := by decide
    cases hover.symm.trans hs'
  · rintro ⟨-, hrest⟩
    obtain ⟨⟨s', hs', -, hflag⟩, -⟩ := hrest ⟨[0, 0], 0, true⟩ (by decide)
    have hstale : ClientMimes.receive mimetypes ⟨[0, 0], 0, true⟩
        (emptyMsg ⟨[htmlEntry], by decide⟩) = .ok ⟨[0, 0], 1, true⟩ := by decide
    obtain rfl := Except.ok.inj (hstale.symm.trans hs')
    exact absurd (hflag.mp rfl) (by decide)

end KasmVNC.Unix
