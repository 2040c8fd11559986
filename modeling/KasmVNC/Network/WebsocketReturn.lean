import KasmVNC.Lib.Base64
import KasmVNC.Lib.Run
import KasmVNC.Network.Websocket

/-!
# From the VNC server to the browser

The other direction of `do_proxy`. What the VNC server sends is read in chunks, and each chunk
becomes a WebSocket frame in `cout_buf`. Two offsets tell which part of it is still to be sent,
and nothing more is read before all of it is sent. A failed `ws_send` is not told from one that
has sent something: it moves the first offset back by one.
-/

namespace KasmVNC.Network

open KasmVNC.Lib

abbrev DBUFSIZE : ℕ := BUFSIZE * 3 / 4 - 20

/-! ## Encoding -/

/-- Bytes are written at a place in a buffer, unless that is past its end. -/
def store (buf : List Byte) (i : ℕ) (bytes : List Byte) : Option (List Byte) :=
  if i + bytes.length ≤ buf.length then
    some (buf.take i ++ bytes ++ buf.drop (i + bytes.length))
  else none

/-- The base64 filter of OpenSSL, with no line breaks. -/
structure Base64Filter where
  write : List Byte → List Byte
  read : List Byte → Option (List Byte)
  length_write : ∀ s, (write s).length = (s.length + 2) / 3 * 4
  read_write : ∀ s, read (write s) = some s

/-- The length in the header of a frame. -/
def codeOf (len : ℕ) : List Byte :=
  if len ≤ 125 then [BitVec.ofNat 8 len] else 126 :: be16 (BitVec.ofNat 16 len)

section Encode

variable (b64 : Base64Filter)

/-- The length, or -1 if there is no room for it. There is a zero behind what is written. -/
def ws_b64_ntop (src target : List Byte) (offset dstlen : ℕ) : Option (ℤ × List Byte) := do
  let data := b64.write src
  let len := min dstlen data.length
  let target ← store target offset (data.take len)
  let target ← store target (offset + len) [0]
  some (if dstlen < data.length then -1 else data.length, target)

/-- What is returned and what `target` is then. It is `none` if more than that is written. -/
def encode_hybi (src target : List Byte) (targsize : ℕ) (opcode : BitVec 32) :
    Option (ℤ × List Byte) :=
  if opcode ≠ OPCODE_TEXT ∧ opcode ≠ OPCODE_BINARY then some (-1, target)
  else do
    let target ← store target 0 [((opcode &&& 0x0F) ||| 0x80).setWidth 8]
    if src = [] then some (0, target)
    else
      let text := opcode &&& OPCODE_TEXT ≠ 0
      let len := if text then (src.length - 1) / 3 * 4 + 4 else src.length
      if len ≥ 65536 then some (-1, target)
      else
        let target ← store target 1 (codeOf len)
        let payload_offset := 1 + (codeOf len).length
        if text then
          let (len, target) ← ws_b64_ntop b64 src target payload_offset (targsize - payload_offset)
          some (if len < 0 then len else len + payload_offset, target)
        else
          let target ← store target payload_offset src
          some (src.length + payload_offset, target)

end Encode

/-! ## The proxy -/

/-- The variables of `do_proxy` for this direction, and the bytes before and behind them. -/
structure ReturnProxy where
  /-- What the VNC server has sent. -/
  received : List Byte := []
  cout_buf : List Byte
  cout_start : BitVec 32 := 0
  cout_end : BitVec 32 := 0
  /-- What is on the socket of the client. -/
  sent : List Byte := []
  stopped : Bool := false
  /-- `encode_hybi` has written past the buffer. -/
  overrun : Bool := false

/-- What happens in a turn of the loop: the client takes some bytes, or `ws_send` fails, or bytes
come from the VNC server, or a signal tells of a broken pipe. -/
inductive ReturnEvent
  | send (result : Option ℕ)
  | recv (chunk : List Byte)
  | pipeError

namespace ReturnProxy

def initial (buffer : Vector Byte BUFSIZE) : ReturnProxy := { cout_buf := buffer.toList }

def queued (p : ReturnProxy) : List Byte :=
  (p.cout_buf.drop p.cout_start.toNat).take (p.cout_end - p.cout_start).toNat

/-- Bytes are on the socket, and `ws_send` has returned a number. -/
def advance (taken : List Byte) (bytes : ℤ) (p : ReturnProxy) : ReturnProxy :=
  let cout_start := p.cout_start + BitVec.ofInt 32 bytes
  if cout_start ≥ p.cout_end then
    { p with sent := p.sent ++ taken, cout_start := 0, cout_end := 0 }
  else { p with sent := p.sent ++ taken, cout_start := cout_start }

/-- `ws_send` takes what is queued, or the first `n` bytes of it. -/
def send (result : Option ℕ) (p : ReturnProxy) : ReturnProxy :=
  match result with
  | none => p.advance [] (-1)
  | some n => p.advance (p.queued.take n) (p.queued.take n).length

/-- An error of `encode_hybi` is not seen, because `cout_end` is unsigned. -/
def receive (b64 : Base64Filter) (opcode : BitVec 32) (chunk : List Byte) (p : ReturnProxy) :
    ReturnProxy :=
  if chunk = [] then { p with stopped := true }
  else
    let p := { p with received := p.received ++ chunk, cout_start := 0 }
    match encode_hybi b64 chunk p.cout_buf BUFSIZE opcode with
    | none => { p with stopped := true, overrun := true }
    | some (len, cout_buf) => { p with cout_buf := cout_buf, cout_end := BitVec.ofInt 32 len }

/-- One turn of the loop. It is the client's if something is queued, and otherwise the VNC
server's. -/
def step (b64 : Base64Filter) (opcode : BitVec 32) (p : ReturnProxy) : ReturnEvent → ReturnProxy
  | .send result =>
    if p.stopped ∨ p.cout_end = p.cout_start then p else p.send result
  | .recv chunk =>
    if p.stopped ∨ p.cout_end ≠ p.cout_start then p
    else p.receive b64 opcode (chunk.take DBUFSIZE)
  | .pipeError => { p with stopped := true }

end ReturnProxy

/-! ## What a browser makes of it -/

def readWord : List Byte → Option (ℕ × List Byte)
  | high :: low :: rest => some (high.toNat * 256 + low.toNat, rest)
  | _ => none

/-- The length of a payload. The server masks nothing, and no frame has more than two bytes of
length. -/
def readLength : List Byte → Option (ℕ × List Byte)
  | [] => none
  | code :: rest =>
    if code.toNat ≤ 125 then some (code.toNat, rest)
    else if code = 126 then readWord rest
    else none

/-- The payload of the first frame, and what is behind it. -/
def readFrame (first : Byte) : List Byte → Option (List Byte × List Byte)
  | [] => none
  | b :: rest =>
    if b ≠ first then none
    else
      (readLength rest).bind fun r =>
        if r.1 ≤ r.2.length then some (r.2.splitAt r.1) else none

/-- The payloads of whole frames, and what is behind them. -/
def readFrames (first : Byte) : ℕ → List Byte → List (List Byte) × List Byte
  | 0, s => ([], s)
  | n + 1, s =>
    match readFrame first s with
    | none => ([], s)
    | some (payload, rest) =>
      let r := readFrames first n rest
      (payload :: r.1, r.2)

/-- A final frame of the kind. -/
def firstByte (opcode : BitVec 32) : Byte := 0x80 ||| opcode.setWidth 8

def unpack (b64 : Base64Filter) (opcode : BitVec 32) (payload : List Byte) : Option (List Byte) :=
  if opcode = OPCODE_TEXT then b64.read payload else some payload

/-- What has been sent is whole frames and a part of one more, and the payloads are the start of
what has been received. -/
def ReturnProxy.Delivers (b64 : Base64Filter) (opcode : BitVec 32) (p : ReturnProxy) : Prop :=
  let r := readFrames (firstByte opcode) p.sent.length p.sent
  (∃ chunks : List (List Byte), r.1.map (unpack b64 opcode) = chunks.map some ∧
    chunks.flatten <+: p.received) ∧
  ∃ more payload, readFrame (firstByte opcode) (r.2 ++ more) = some (payload, [])

/-- No `ws_send` fails. -/
def ReturnProxy.Sends (p : ReturnProxy) (e : ReturnEvent) : Prop :=
  p.stopped = false → p.cout_end ≠ p.cout_start → e ≠ .send none

/-! ## Buffers -/

theorem store_prefix {buf written : List Byte} (h : written <+: buf) (bytes : List Byte)
    (hroom : written.length + bytes.length ≤ buf.length) :
    ∃ buf', store buf written.length bytes = some buf' ∧ buf'.length = buf.length ∧
      written ++ bytes <+: buf' := by
  obtain ⟨rest, rfl⟩ := h
  refine ⟨_, if_pos hroom, ?_, ?_⟩
  · rw [List.length_append] at hroom
    simp only [List.length_append, List.length_take, List.length_drop]
    omega
  · rw [List.take_left]
    exact List.prefix_append _ _

/-! ## Frames -/

section Frame

variable (b64 : Base64Filter) (opcode : BitVec 32) (chunk : List Byte)

/-- The payload of the frame for a chunk. -/
def payloadOf : List Byte := if opcode = OPCODE_TEXT then b64.write chunk else chunk

def frameOf : List Byte :=
  let payload := payloadOf b64 opcode chunk
  firstByte opcode :: (codeOf payload.length ++ payload)

variable {b64 opcode chunk}

theorem length_codeOf (len : ℕ) : (codeOf len).length ≤ 3 := by
  unfold codeOf
  split
  · exact Nat.le_of_ble_eq_true rfl
  · exact Nat.le_refl 3

theorem length_payloadOf (b64 : Base64Filter) (opcode : BitVec 32)
    (hchunk : chunk.length ≤ DBUFSIZE) :
    (payloadOf b64 opcode chunk).length ≤ 65512 := by
  have hsize : chunk.length ≤ 49132 := hchunk
  unfold payloadOf
  split
  · rw [b64.length_write]
    omega
  · omega

theorem unpack_payloadOf : unpack b64 opcode (payloadOf b64 opcode chunk) = some chunk := by
  unfold unpack payloadOf
  split
  · exact b64.read_write chunk
  · rfl

theorem length_frameOf : (frameOf b64 opcode chunk).length =
    1 + (codeOf (payloadOf b64 opcode chunk).length).length +
      (payloadOf b64 opcode chunk).length := by
  unfold frameOf
  rw [List.length_cons, List.length_append]
  omega

/-- The zero behind it has to fit, too. -/
theorem ws_b64_ntop_ok (b64 : Base64Filter) (src : List Byte) {written target : List Byte}
    {dstlen : ℕ} (h : written <+: target)
    (hroom : written.length + (b64.write src).length < target.length)
    (hdst : (b64.write src).length ≤ dstlen) :
    ∃ target', ws_b64_ntop b64 src target written.length dstlen =
        some (((b64.write src).length : ℤ), target') ∧
      target'.length = target.length ∧ written ++ b64.write src <+: target' := by
  obtain ⟨first, hfirst, hlength, hbegins⟩ := store_prefix h _ hroom.le
  have hzero : (written ++ b64.write src).length + [(0 : Byte)].length ≤ first.length := by
    rw [List.length_append, List.length_singleton, hlength]
    exact hroom
  obtain ⟨second, hsecond, hlength', hbegins'⟩ := store_prefix hbegins _ hzero
  refine ⟨second, ?_, hlength'.trans hlength, (List.prefix_append _ _).trans hbegins'⟩
  unfold ws_b64_ntop
  rw [List.length_append] at hsecond
  simp only [Nat.min_eq_right hdst, List.take_length, hfirst, hsecond, Option.bind_eq_bind,
    Option.bind_some, if_neg (Nat.not_lt.mpr hdst)]

/-- **Encoding** a chunk that has been read puts its frame at the start of the buffer. -/
theorem encode_hybi_ok (b64 : Base64Filter) (hop : opcode = OPCODE_TEXT ∨ opcode = OPCODE_BINARY)
    (hne : chunk ≠ []) (hsize : chunk.length ≤ DBUFSIZE) {target : List Byte}
    (htarget : target.length = BUFSIZE) :
    ∃ target', encode_hybi b64 chunk target BUFSIZE opcode =
        some (((frameOf b64 opcode chunk).length : ℤ), target') ∧
      target'.length = BUFSIZE ∧ frameOf b64 opcode chunk <+: target' := by
  have hpos : 0 < chunk.length := List.length_pos_of_ne_nil hne
  have hpayload := length_payloadOf b64 opcode hsize
  have hlen : (if opcode &&& OPCODE_TEXT ≠ 0 then (chunk.length - 1) / 3 * 4 + 4
      else chunk.length) = (payloadOf b64 opcode chunk).length := by
    rcases hop with rfl | rfl
    · rw [if_pos (by decide), payloadOf, if_pos rfl, b64.length_write]
      omega
    · rfl
  have hfirst : ((opcode &&& 0x0F) ||| 0x80).setWidth 8 = firstByte opcode := by
    rcases hop with rfl | rfl <;> decide
  have hcode := length_codeOf (payloadOf b64 opcode chunk).length
  obtain ⟨t₁, ht₁, hlength₁, hbegins₁⟩ := store_prefix (List.nil_prefix (l := target))
    [firstByte opcode] (by
      rw [htarget]
      exact (by decide : 0 + 1 ≤ BUFSIZE))
  obtain ⟨t₂, ht₂, hlength₂, hbegins₂⟩ := store_prefix hbegins₁
    (codeOf (payloadOf b64 opcode chunk).length) (by
      rw [hlength₁, htarget]
      show 1 + _ ≤ 65536
      omega)
  have hheader : ([] ++ [firstByte opcode] ++
      codeOf (payloadOf b64 opcode chunk).length).length =
      1 + (codeOf (payloadOf b64 opcode chunk).length).length := List.length_append
  have ht₂' : t₂.length = BUFSIZE := hlength₂.trans (hlength₁.trans htarget)
  unfold encode_hybi
  rw [if_neg (by rcases hop with rfl | rfl <;> decide), hfirst]
  rw [show store target 0 [firstByte opcode] = some t₁ from ht₁, Option.bind_eq_bind,
    Option.bind_some, if_neg hne]
  simp only [hlen]
  rw [if_neg (by omega), show store t₁ 1 (codeOf _) = some t₂ from ht₂, Option.bind_eq_bind,
    Option.bind_some]
  generalize hpre : [] ++ [firstByte opcode] ++ codeOf (payloadOf b64 opcode chunk).length =
    header at hheader hbegins₂
  have hframe : frameOf b64 opcode chunk = header ++ payloadOf b64 opcode chunk := by
    rw [← hpre]
    rfl
  have hroom : header.length + (payloadOf b64 opcode chunk).length < t₂.length := by
    rw [ht₂']
    show _ < 65536
    omega
  rw [← hheader, hframe]
  rcases hop with rfl | rfl
  · have hdst : (b64.write chunk).length ≤ BUFSIZE - header.length := by
      rw [ht₂'] at hroom
      exact Nat.le_sub_of_add_le' hroom.le
    obtain ⟨t₃, ht₃, hlength₃, hbegins₃⟩ :=
      ws_b64_ntop_ok b64 chunk hbegins₂ hroom hdst
    refine ⟨t₃, ?_, hlength₃.trans ht₂', hbegins₃⟩
    rw [if_pos (by decide), ht₃, List.length_append, Int.natCast_add, Int.add_comm]
    exact congrArg (fun len => some (len, t₃)) (if_neg (by omega))
  · obtain ⟨t₃, ht₃, hlength₃, hbegins₃⟩ := store_prefix hbegins₂ _ hroom.le
    refine ⟨t₃, ?_, hlength₃.trans ht₂', hbegins₃⟩
    rw [if_neg (by decide), show store t₂ header.length chunk = some t₃ from ht₃,
      List.length_append, Int.natCast_add, Int.add_comm]
    rfl

theorem readLength_codeOf {len : ℕ} (h : len < 65536) (rest : List Byte) :
    readLength (codeOf len ++ rest) = some (len, rest) := by
  unfold codeOf
  by_cases hshort : len ≤ 125
  · have hcode : (BitVec.ofNat 8 len).toNat = len := by
      rw [BitVec.toNat_ofNat]
      omega
    rw [if_pos hshort, List.singleton_append, readLength, hcode, if_pos hshort]
  · have hlen : ((BitVec.ofNat 16 len).extractLsb' 8 8).toNat * 256 +
        ((BitVec.ofNat 16 len).extractLsb' 0 8).toNat = len := by
      simp only [BitVec.extractLsb'_toNat, BitVec.toNat_ofNat, Nat.shiftRight_eq_div_pow]
      omega
    rw [if_neg hshort, List.cons_append, readLength, if_neg (by decide), if_pos rfl]
    show some (_, rest) = _
    rw [hlen]

theorem readWord_append {s rest : List Byte} {len : ℕ} (h : readWord s = some (len, rest))
    (more : List Byte) : readWord (s ++ more) = some (len, rest ++ more) := by
  match s with
  | [] => cases h
  | [_] => cases h
  | high :: low :: s =>
    cases h
    rfl

theorem readLength_append {s rest : List Byte} {len : ℕ} (h : readLength s = some (len, rest))
    (more : List Byte) : readLength (s ++ more) = some (len, rest ++ more) := by
  cases s with
  | nil => cases h
  | cons code s =>
    rw [readLength] at h
    rw [List.cons_append, readLength]
    by_cases hshort : code.toNat ≤ 125
    · rw [if_pos hshort] at h ⊢
      cases h
      rfl
    · rw [if_neg hshort] at h ⊢
      by_cases hlong : code = 126
      · rw [if_pos hlong] at h ⊢
        exact readWord_append h more
      · rw [if_neg hlong] at h
        cases h

/-- What is read from a frame. -/
theorem readFrame_frameOf (b64 : Base64Filter) (opcode : BitVec 32)
    (hsize : chunk.length ≤ DBUFSIZE) (more : List Byte) :
    readFrame (firstByte opcode) (frameOf b64 opcode chunk ++ more) =
      some (payloadOf b64 opcode chunk, more) := by
  have hlength := length_payloadOf b64 opcode hsize
  unfold frameOf
  rw [List.cons_append, List.append_assoc, readFrame, if_neg (not_not.mpr rfl),
    readLength_codeOf (by omega), Option.bind_some, if_pos (by simp)]
  simp

theorem readFrame_append {first : Byte} {s payload rest : List Byte}
    (h : readFrame first s = some (payload, rest)) (more : List Byte) :
    readFrame first (s ++ more) = some (payload, rest ++ more) := by
  cases s with
  | nil => cases h
  | cons b s =>
    rw [readFrame] at h
    rw [List.cons_append, readFrame]
    by_cases hb : b ≠ first
    · rw [if_pos hb] at h
      cases h
    · rw [if_neg hb] at h ⊢
      obtain ⟨⟨len, body⟩, hlen, hbody⟩ := Option.bind_eq_some_iff.mp h
      rw [readLength_append hlen, Option.bind_some]
      dsimp only at hbody ⊢
      split at hbody
      · rename_i hle
        have hle' : len ≤ (body ++ more).length := by
          rw [List.length_append]
          omega
        rw [if_pos hle']
        rw [List.splitAt_eq] at hbody ⊢
        cases hbody
        rw [List.take_append_of_le_length hle, List.drop_append_of_le_length hle]
      · cases hbody

/-- A part of a frame is not a frame. -/
theorem readFrame_part (hsize : chunk.length ≤ DBUFSIZE) {part more : List Byte}
    (hpart : part ++ more = frameOf b64 opcode chunk) (hmore : more ≠ []) :
    readFrame (firstByte opcode) part = none := by
  cases hread : readFrame (firstByte opcode) part with
  | none => rfl
  | some r =>
    have hwhole := readFrame_append hread more
    have hframe := readFrame_frameOf b64 opcode hsize []
    rw [List.append_nil, ← hpart, hwhole] at hframe
    have hnil : r.2 ++ more = [] := congrArg Prod.snd (Option.some.inj hframe)
    exact absurd (List.append_eq_nil_iff.mp hnil).2 hmore

/-- What is read from the frames of some chunks and a part of one more. -/
theorem readFrames_frames (b64 : Base64Filter) {part : List Byte}
    (hpart : readFrame (firstByte opcode) part = none) :
    ∀ (chunks : List (List Byte)) {n : ℕ}, (∀ c ∈ chunks, c.length ≤ DBUFSIZE) →
      chunks.length ≤ n →
      readFrames (firstByte opcode) n (chunks.flatMap (frameOf b64 opcode) ++ part) =
        (chunks.map (payloadOf b64 opcode), part)
  | [], 0, _, _ => rfl
  | [], n + 1, _, _ => by
    rw [List.flatMap_nil, List.nil_append, readFrames, hpart]
    rfl
  | c :: chunks, n + 1, hsize, hn => by
    have hrest := readFrames_frames b64 hpart chunks
      (fun d hd => hsize d (List.mem_cons_of_mem c hd)) (Nat.le_of_succ_le_succ hn)
    rw [List.flatMap_cons, List.append_assoc, readFrames,
      readFrame_frameOf b64 opcode (hsize c List.mem_cons_self)]
    dsimp only
    rw [hrest]
    rfl

theorem length_le_frames : ∀ chunks : List (List Byte),
    chunks.length ≤ (chunks.flatMap (frameOf b64 opcode)).length
  | [] => Nat.le_refl 0
  | c :: chunks => by
    have hrest := length_le_frames chunks
    rw [List.flatMap_cons, List.length_append, List.length_cons, length_frameOf]
    omega

end Frame

/-! ## Runs -/

namespace ReturnProxy

variable {b64 : Base64Filter} {opcode : BitVec 32} {p : ReturnProxy}
  {done : List (List Byte)} {chunk : List Byte} {k : ℕ}

/-- The buffer is whole. -/
structure Whole (p : ReturnProxy) : Prop where
  size : p.cout_buf.length = BUFSIZE
  overrun : p.overrun = false

/-- The frames of some chunks have been sent, and nothing is left to send. -/
structure Idle (b64 : Base64Filter) (opcode : BitVec 32) (p : ReturnProxy)
    (done : List (List Byte)) : Prop where
  offsets : p.cout_end = p.cout_start
  sent : p.sent = done.flatMap (frameOf b64 opcode)

/-- The frame of one more chunk is in the buffer, and `k` bytes of it have been sent. -/
structure Sending (b64 : Base64Filter) (opcode : BitVec 32) (p : ReturnProxy)
    (done : List (List Byte)) (chunk : List Byte) (k : ℕ) : Prop where
  size : chunk.length ≤ DBUFSIZE
  cout_buf : frameOf b64 opcode chunk <+: p.cout_buf
  cout_start : p.cout_start.toNat = k
  cout_end : p.cout_end.toNat = (frameOf b64 opcode chunk).length
  lt : k < (frameOf b64 opcode chunk).length
  sent : p.sent = done.flatMap (frameOf b64 opcode) ++ (frameOf b64 opcode chunk).take k

/-- These are all the chunks that have been received. -/
def Keeps (b64 : Base64Filter) (opcode : BitVec 32) (p : ReturnProxy) : Prop :=
  ∃ done : List (List Byte), (∀ c ∈ done, c.length ≤ DBUFSIZE) ∧
    (Idle b64 opcode p done ∧ p.received = done.flatten ∨
      ∃ chunk k, Sending b64 opcode p done chunk k ∧ p.received = done.flatten ++ chunk)

theorem delivers_of_sent (hdone : ∀ c ∈ done, c.length ≤ DBUFSIZE)
    (hsize : chunk.length ≤ DBUFSIZE) {part more : List Byte}
    (hpart : part ++ more = frameOf b64 opcode chunk) (hmore : more ≠ [])
    (hsent : p.sent = done.flatMap (frameOf b64 opcode) ++ part)
    (hreceived : done.flatten <+: p.received) : p.Delivers b64 opcode := by
  have hlength : done.length ≤ p.sent.length := by
    rw [hsent, List.length_append]
    exact Nat.le_add_right_of_le (length_le_frames done)
  have hread := readFrames_frames b64 (readFrame_part hsize hpart hmore) done hdone hlength
  unfold ReturnProxy.Delivers
  rw [← hsent] at hread
  rw [hread]
  refine ⟨⟨done, ?_, hreceived⟩, more, payloadOf b64 opcode chunk, ?_⟩
  · rw [List.map_map]
    exact List.map_congr_left fun c _ => unpack_payloadOf
  · have hframe := readFrame_frameOf b64 opcode hsize []
    rwa [List.append_nil, ← hpart] at hframe

theorem Keeps.delivers (h : p.Keeps b64 opcode) : p.Delivers b64 opcode := by
  obtain ⟨done, hdone, ⟨hidle, hreceived⟩ | ⟨chunk, k, hsending, hreceived⟩⟩ := h
  · have hnil : ([] : List Byte).length ≤ DBUFSIZE := Nat.zero_le _
    refine delivers_of_sent hdone hnil (List.nil_append _) (List.cons_ne_nil _ _) ?_ ?_
    · rw [hidle.sent, List.append_nil]
    · exact ⟨[], (List.append_nil _).trans hreceived.symm⟩
  · refine delivers_of_sent hdone hsending.size (List.take_append_drop k _) ?_ hsending.sent ?_
    · exact fun hnil => absurd (List.drop_eq_nil_iff.mp hnil) (Nat.not_le.mpr hsending.lt)
    · rw [hreceived]
      exact List.prefix_append _ _

/-- What is queued is the rest of the frame. -/
theorem Sending.queued (h : Sending b64 opcode p done chunk k) :
    p.queued = (frameOf b64 opcode chunk).drop k := by
  obtain ⟨rest, hrest⟩ := h.cout_buf
  have hlt := h.lt
  have hstart := h.cout_start
  have hend := h.cout_end
  have hbound := p.cout_end.isLt
  have hsub : (p.cout_end - p.cout_start).toNat = (frameOf b64 opcode chunk).length - k := by
    rw [BitVec.toNat_sub, hstart, hend]
    omega
  unfold ReturnProxy.queued
  rw [hsub, hstart, ← hrest, List.drop_append_of_le_length hlt.le]
  exact List.take_left' (List.length_drop)

theorem length_frameOf_lt (b64 : Base64Filter) (opcode : BitVec 32)
    (hsize : chunk.length ≤ DBUFSIZE) :
    (frameOf b64 opcode chunk).length < 65536 := by
  have hpayload := length_payloadOf b64 opcode hsize
  have hcode := length_codeOf (payloadOf b64 opcode chunk).length
  rw [length_frameOf]
  omega

/-- `ws_send` has returned a number that the offset can be moved by. -/
theorem Sending.advance (h : Sending b64 opcode p done chunk k) {m : ℕ}
    (hm : k + m ≤ (frameOf b64 opcode chunk).length) :
    let p' := p.advance (((frameOf b64 opcode chunk).drop k).take m) m
    k + m = (frameOf b64 opcode chunk).length ∧ Idle b64 opcode p' (done ++ [chunk]) ∨
      Sending b64 opcode p' done chunk (k + m) := by
  have hbound := length_frameOf_lt b64 opcode h.size
  have hstart := h.cout_start
  have hend := h.cout_end
  intro p'
  have hsum : (p.cout_start + BitVec.ofNat 32 m).toNat = k + m := by
    rw [BitVec.toNat_add, BitVec.toNat_ofNat, hstart]
    omega
  have hsent : p.sent ++ ((frameOf b64 opcode chunk).drop k).take m =
      done.flatMap (frameOf b64 opcode) ++ (frameOf b64 opcode chunk).take (k + m) := by
    rw [h.sent, List.append_assoc, ← List.take_add]
  by_cases hfull : k + m = (frameOf b64 opcode chunk).length
  · refine .inl ⟨hfull, ?_⟩
    have hge : p.cout_start + BitVec.ofNat 32 m ≥ p.cout_end := by
      rw [ge_iff_le, BitVec.le_def, hsum, hend]
      omega
    show Idle b64 opcode (p.advance _ _) _
    rw [ReturnProxy.advance, BitVec.ofInt_natCast, if_pos hge]
    refine ⟨rfl, ?_⟩
    show p.sent ++ _ = _
    rw [hsent, hfull, List.take_length, List.flatMap_append, List.flatMap_singleton]
  · refine .inr ?_
    have hlt : ¬ p.cout_start + BitVec.ofNat 32 m ≥ p.cout_end := by
      rw [ge_iff_le, BitVec.le_def, hsum, hend]
      omega
    show Sending b64 opcode (p.advance _ _) _ _ _
    rw [ReturnProxy.advance, BitVec.ofInt_natCast, if_neg hlt]
    exact ⟨h.size, h.cout_buf, hsum, hend, Nat.lt_of_le_of_ne hm hfull, hsent⟩

/-- What `ws_send` does not change. -/
theorem send_same (p : ReturnProxy) (result : Option ℕ) :
    (p.send result).received = p.received ∧ (p.send result).stopped = p.stopped := by
  have hadvance : ∀ (taken : List Byte) (bytes : ℤ),
      (p.advance taken bytes).received = p.received ∧
        (p.advance taken bytes).stopped = p.stopped := by
    intro taken bytes
    unfold ReturnProxy.advance
    dsimp only
    split
    · exact ⟨rfl, rfl⟩
    · exact ⟨rfl, rfl⟩
  cases result with
  | none => exact hadvance _ _
  | some n => exact hadvance _ _

/-- **Sending** goes on in the frame, or the frame has been sent. -/
theorem Sending.send (h : Sending b64 opcode p done chunk k) (n : ℕ) :
    Idle b64 opcode (p.send (some n)) (done ++ [chunk]) ∨
      k + n < (frameOf b64 opcode chunk).length ∧
        ∃ k, Sending b64 opcode (p.send (some n)) done chunk k := by
  have htaken : ((frameOf b64 opcode chunk).drop k).take n =
      ((frameOf b64 opcode chunk).drop k).take (min n ((frameOf b64 opcode chunk).length - k)) := by
    rw [List.take_eq_take_min, List.length_drop]
  have hlength : (((frameOf b64 opcode chunk).drop k).take n).length =
      min n ((frameOf b64 opcode chunk).length - k) := by
    rw [List.length_take, List.length_drop]
  have hlt := h.lt
  unfold ReturnProxy.send
  dsimp only
  rw [h.queued, hlength, htaken]
  rcases h.advance (m := min n ((frameOf b64 opcode chunk).length - k)) (by omega) with
    ⟨hfull, hidle⟩ | hsending
  · exact .inl hidle
  · have hrest := hsending.lt
    exact .inr ⟨by omega, _, hsending⟩

/-- **A failure** at the start of a frame: nothing of it is sent any more. -/
theorem Sending.send_none (h : Sending b64 opcode p done chunk 0) :
    Idle b64 opcode (p.send none) done := by
  have hge : p.cout_start + BitVec.ofInt 32 (-1) ≥ p.cout_end := by
    rw [ge_iff_le, BitVec.le_def, BitVec.toNat_add, h.cout_start, h.cout_end]
    exact (length_frameOf_lt b64 opcode h.size).le.trans (by decide)
  unfold ReturnProxy.send ReturnProxy.advance
  dsimp only
  rw [if_pos hge]
  refine ⟨rfl, ?_⟩
  show p.sent ++ [] = _
  rw [h.sent, List.take_zero, List.append_nil, List.append_nil]

/-- **Receiving** a chunk puts its frame into the buffer. -/
theorem Idle.receive (hop : opcode = OPCODE_TEXT ∨ opcode = OPCODE_BINARY)
    (h : Idle b64 opcode p done) (hwhole : p.Whole) (hne : chunk ≠ [])
    (hsize : chunk.length ≤ DBUFSIZE) :
    Sending b64 opcode (p.receive b64 opcode chunk) done chunk 0 ∧
      (p.receive b64 opcode chunk).received = p.received ++ chunk ∧
      (p.receive b64 opcode chunk).stopped = p.stopped := by
  obtain ⟨target, hencode, -, hbegins⟩ := encode_hybi_ok b64 hop hne hsize hwhole.size
  have hbound := length_frameOf_lt b64 opcode hsize
  unfold ReturnProxy.receive
  rw [if_neg hne]
  dsimp only
  rw [hencode]
  dsimp only
  rw [BitVec.ofInt_natCast]
  refine ⟨⟨hsize, hbegins, rfl, ?_, ?_, ?_⟩, rfl, rfl⟩
  · exact Nat.mod_eq_of_lt (hbound.trans (by decide))
  · rw [length_frameOf]
    omega
  · show p.sent = _
    rw [h.sent, List.take_zero, List.append_nil]

theorem Idle.step_recv (h : Idle b64 opcode p done) (hgoing : p.stopped = false)
    (hsize : chunk.length ≤ DBUFSIZE) :
    p.step b64 opcode (.recv chunk) = p.receive b64 opcode chunk := by
  unfold ReturnProxy.step
  dsimp only
  rw [if_neg (by simp [hgoing, h.offsets]), List.take_of_length_le hsize]

theorem Sending.step_send (h : Sending b64 opcode p done chunk k) (hgoing : p.stopped = false)
    (result : Option ℕ) : p.step b64 opcode (.send result) = p.send result := by
  have hne : p.cout_end ≠ p.cout_start := by
    intro heq
    have hlt := h.lt
    rw [← h.cout_end, heq, h.cout_start] at hlt
    exact Nat.lt_irrefl k hlt
  unfold ReturnProxy.step
  dsimp only
  rw [if_neg (by simp [hgoing, hne])]

theorem Whole.advance (h : p.Whole) (taken : List Byte) (bytes : ℤ) :
    (p.advance taken bytes).Whole := by
  unfold ReturnProxy.advance
  dsimp only
  split
  · exact ⟨h.size, h.overrun⟩
  · exact ⟨h.size, h.overrun⟩

theorem Whole.step (b64 : Base64Filter)
    (hop : opcode = OPCODE_TEXT ∨ opcode = OPCODE_BINARY) (h : p.Whole) (e : ReturnEvent) :
    (p.step b64 opcode e).Whole := by
  cases e with
  | pipeError => exact ⟨h.size, h.overrun⟩
  | send result =>
    unfold ReturnProxy.step
    dsimp only
    split
    · exact h
    · cases result with
      | none => exact h.advance _ _
      | some n => exact h.advance _ _
  | recv chunk =>
    unfold ReturnProxy.step
    dsimp only
    split
    · exact h
    · unfold ReturnProxy.receive
      split
      · exact ⟨h.size, h.overrun⟩
      · obtain ⟨target, hencode, hlength, -⟩ := encode_hybi_ok b64 hop ‹_›
          (List.length_take_le _ chunk) h.size
        dsimp only
        rw [hencode]
        exact ⟨hlength, h.overrun⟩

/-- **A chunk is lost** if `ws_send` fails at its start: the next one is sent instead. -/
theorem Idle.loses (hop : opcode = OPCODE_TEXT ∨ opcode = OPCODE_BINARY)
    (hidle : Idle b64 opcode p done) (hwhole : p.Whole) (hgoing : p.stopped = false)
    {chunk' : List Byte} (hne : chunk ≠ []) (hsize : chunk.length ≤ DBUFSIZE) (hne' : chunk' ≠ [])
    (hsize' : chunk'.length ≤ DBUFSIZE) :
    let p' := run (ReturnProxy.step b64 opcode) p
      [.recv chunk, .send none, .recv chunk', .send (some (frameOf b64 opcode chunk').length)]
    Idle b64 opcode p' (done ++ [chunk']) ∧ p'.received = p.received ++ chunk ++ chunk' := by
  obtain ⟨hsending, hreceived, hgoing₁⟩ := hidle.receive hop hwhole hne hsize
  have hwhole₁ := hwhole.step b64 hop (.recv chunk)
  have hidle₂ := hsending.send_none
  have hwhole₂ := hwhole₁.step b64 hop (.send none)
  have hstep₂ := hsending.step_send (hgoing₁.trans hgoing) none
  rw [hidle.step_recv hgoing hsize, hstep₂] at hwhole₂
  have hgoing₂ : ((p.receive b64 opcode chunk).send none).stopped = false :=
    (send_same _ none).2.trans (hgoing₁.trans hgoing)
  obtain ⟨hsending₃, hreceived₃, hgoing₃⟩ := hidle₂.receive hop hwhole₂ hne' hsize'
  rw [run_cons, hidle.step_recv hgoing hsize, run_cons, hstep₂, run_cons,
    hidle₂.step_recv hgoing₂ hsize', run_cons, hsending₃.step_send (hgoing₃.trans hgoing₂),
    run_nil]
  refine ⟨?_, ?_⟩
  · rcases hsending₃.send (frameOf b64 opcode chunk').length with h | ⟨hlt, -⟩
    · exact h
    · rw [Nat.zero_add] at hlt
      exact absurd hlt (Nat.lt_irrefl _)
  · rw [(send_same _ _).1, hreceived₃, (send_same _ _).1, hreceived]

/-- **One turn**, in which `ws_send` does not fail. -/
theorem Keeps.step (hop : opcode = OPCODE_TEXT ∨ opcode = OPCODE_BINARY) (h : p.Keeps b64 opcode)
    (hwhole : p.Whole) {e : ReturnEvent} (hok : p.Sends e) :
    (p.step b64 opcode e).Keeps b64 opcode := by
  obtain ⟨done, hdone, hcase⟩ := h
  have hstop : ({ p with stopped := true } : ReturnProxy).Keeps b64 opcode := by
    refine ⟨done, hdone, ?_⟩
    rcases hcase with ⟨hidle, hreceived⟩ | ⟨chunk, k, hsending, hreceived⟩
    · exact .inl ⟨{ hidle with }, hreceived⟩
    · exact .inr ⟨chunk, k, { hsending with }, hreceived⟩
  cases e with
  | pipeError => exact hstop
  | send result =>
    unfold ReturnProxy.step
    dsimp only
    split
    · exact ⟨done, hdone, hcase⟩
    · rename_i hgoing
      rw [not_or] at hgoing
      rcases hcase with ⟨hidle, -⟩ | ⟨chunk, k, hsending, hreceived⟩
      · exact absurd hidle.offsets hgoing.2
      · cases result with
        | none => exact absurd rfl (hok (Bool.of_not_eq_true hgoing.1) hgoing.2)
        | some n =>
          rcases hsending.send n with hidle | ⟨-, k', hsending'⟩
          · refine ⟨done ++ [chunk], ?_, .inl ⟨hidle, ?_⟩⟩
            · intro c hc
              rcases List.mem_append.mp hc with hc | hc
              · exact hdone c hc
              · rw [List.mem_singleton.mp hc]
                exact hsending.size
            · rw [(send_same p _).1, hreceived, List.flatten_append, List.flatten_singleton]
          · refine ⟨done, hdone, .inr ⟨chunk, k', hsending', ?_⟩⟩
            rw [(send_same p _).1, hreceived]
  | recv chunk =>
    unfold ReturnProxy.step
    dsimp only
    split
    · exact ⟨done, hdone, hcase⟩
    · rename_i hgoing
      rw [not_or, not_not] at hgoing
      rcases hcase with ⟨hidle, hreceived⟩ | ⟨chunk, k, hsending, -⟩
      · by_cases hne : chunk.take DBUFSIZE = []
        · rw [ReturnProxy.receive, if_pos hne]
          exact hstop
        · obtain ⟨hsending, hmore, -⟩ :=
            hidle.receive hop hwhole hne (List.length_take_le DBUFSIZE chunk)
          refine ⟨done, hdone, .inr ⟨_, 0, hsending, ?_⟩⟩
          rw [hmore, hreceived]
      · have hlt := hsending.lt
        rw [← hsending.cout_end, hgoing.2, hsending.cout_start] at hlt
        exact absurd hlt (Nat.lt_irrefl k)

end ReturnProxy

open ReturnProxy in
/-- **Nothing lost on the way back** as long as no `ws_send` fails: what is on the socket of the
client are whole frames and a part of one more, with the start of what has been received. In any
case `encode_hybi` stays in its buffer. -/
theorem do_proxy_returns (b64 : Base64Filter) {opcode : BitVec 32}
    (hop : opcode = OPCODE_TEXT ∨ opcode = OPCODE_BINARY) (buffer : Vector Byte BUFSIZE)
    (es : List ReturnEvent) :
    (run (ReturnProxy.step b64 opcode) (initial buffer) es).overrun = false ∧
      (Guarded (ReturnProxy.step b64 opcode) Sends (initial buffer) es →
        (run (ReturnProxy.step b64 opcode) (initial buffer) es).Delivers b64 opcode) := by
  have hwhole : (initial buffer).Whole := ⟨buffer.length_toList, rfl⟩
  have hkeeps : (initial buffer).Keeps b64 opcode :=
    ⟨[], fun c hc => absurd hc List.not_mem_nil, .inl ⟨⟨rfl, rfl⟩, rfl⟩⟩
  constructor
  · exact (run_invariant_all (I := Whole) (fun p e h => h.step b64 hop e) es hwhole).overrun
  · intro hsends
    have hboth := run_invariant (I := fun p => p.Whole ∧ p.Keeps b64 opcode)
      (fun p e h hok => ⟨h.1.step b64 hop e, h.2.step hop h.1 hok⟩) ⟨hwhole, hkeeps⟩ hsends
    exact hboth.2.delivers

def standardBase64 : Base64Filter :=
  ⟨Base64.encode, Base64.decode, Base64.length_encode, Base64.decode_encode⟩

def zeroBuffer : Vector Byte BUFSIZE := Vector.replicate BUFSIZE 0

/-- Two bytes, sent in two parts. -/
def twoParts : List ReturnEvent := [.recv [1, 2], .send (some 3), .send (some 5)]

theorem do_proxy_returns_twoParts :
    (run (ReturnProxy.step standardBase64 OPCODE_TEXT) (.initial zeroBuffer) twoParts).Delivers
      standardBase64 OPCODE_TEXT :=
  (do_proxy_returns standardBase64 (.inl rfl) zeroBuffer twoParts).2
    ⟨fun _ _ => nofun, fun _ _ => nofun, fun _ _ => nofun, trivial⟩

/-- A byte that cannot be sent at once, and another one. -/
def lostByte : List ReturnEvent := [.recv [1], .send none, .recv [2], .send (some 3)]

/-- The client gets the second one only. -/
theorem lostByte_not_delivered :
    ¬ (run (ReturnProxy.step standardBase64 OPCODE_BINARY) (.initial zeroBuffer)
      lostByte).Delivers standardBase64 OPCODE_BINARY := by
  have hwhole : (ReturnProxy.initial zeroBuffer).Whole := ⟨zeroBuffer.length_toList, rfl⟩
  have hidle : (ReturnProxy.initial zeroBuffer).Idle standardBase64 OPCODE_BINARY [] := ⟨rfl, rfl⟩
  obtain ⟨hlost, hreceived⟩ := hidle.loses (.inr rfl) hwhole rfl (List.cons_ne_nil 1 [])
    (by decide : 1 ≤ DBUFSIZE) (List.cons_ne_nil 2 []) (by decide : 1 ≤ DBUFSIZE)
  rintro ⟨⟨chunks, hmap, hbegins⟩, -⟩
  have hsent : (run (ReturnProxy.step standardBase64 OPCODE_BINARY) (.initial zeroBuffer)
      lostByte).sent = [0x82, 1, 2] := hlost.sent
  rw [hsent] at hmap
  obtain rfl : chunks = [[2]] :=
    List.map_injective_iff.mpr (fun _ _ => Option.some.inj) hmap.symm
  have hall : (run (ReturnProxy.step standardBase64 OPCODE_BINARY) (.initial zeroBuffer)
      lostByte).received = [1, 2] := hreceived
  rw [hall] at hbegins
  exact absurd hbegins (by decide)

end KasmVNC.Network
