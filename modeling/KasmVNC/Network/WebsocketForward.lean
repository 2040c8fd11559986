import KasmVNC.Lib.Frames
import KasmVNC.Lib.Run
import KasmVNC.Network.Websocket

/-!
# Nothing lost in the proxy

What `do_proxy` has decoded at any time is the data of the frames that have arrived as a
whole, in whatever pieces they come, as long as four things are true. A message is not
sent in fragments, because the continuation frames are taken for control frames. A frame
fits `tin_buf`, because a full buffer looks like the end of the connection. A record of TLS
fits what is left of it, because the loop does not ask for the rest of one. And no data end
in the same piece as the close frame begins, because its opcode is looked at before the
data are handed on. Every turn takes bytes from the client or gives some to the server, so
the loop comes to the end of what is there.
-/

namespace KasmVNC.Network

open KasmVNC.Lib

/-! ## The bytes of a frame -/

@[simp] theorem length_unmask (mask payload : List Byte) :
    (unmask mask payload).length = payload.length :=
  List.length_mapIdx

theorem unmask_unmask (mask payload : List Byte) :
    unmask mask (unmask mask payload) = payload := by
  ext1 i
  unfold unmask
  rw [List.getElem?_mapIdx, List.getElem?_mapIdx, Option.map_map]
  cases payload[i]? with
  | none => rfl
  | some b => simp [BitVec.xor_assoc]

namespace ClientFrame

variable (f : ClientFrame)

/-- The length as it is in the second byte. -/
def code : ℕ := if f.payload.length ≤ 125 then f.payload.length else 126

def secondByte : Byte := 0x80 ||| BitVec.ofNat 8 f.code

/-- What `decode_hybi` takes out of the frame. -/
def decoded : List Byte := if f.kind = .binary then f.payload else []

theorem payload_le : f.payload.length ≤ 65535 := by
  have hle := f.payload_length
  split at hle <;> omega

theorem code_lt : f.code < 127 := by
  unfold code
  split <;> omega

/-- `hdr_length` -/
def hdrLength : ℕ := if f.payload.length ≤ 125 then 2 else 4

theorem bytes_eq : ∃ ext, f.bytes = f.firstByte :: f.secondByte ::
      (ext ++ (f.mask ++ unmask f.mask f.payload)) ∧
    ext = if f.payload.length ≤ 125 then [] else be16 (BitVec.ofNat 16 f.payload.length) := by
  refine ⟨_, ?_, rfl⟩
  unfold bytes lengthBytes secondByte code
  split <;> rfl

/-- The header is followed by the mask and the masked payload. -/
theorem bytes_split : ∃ head, f.bytes = head ++ (f.mask ++ unmask f.mask f.payload) ∧
    head.length = f.hdrLength := by
  obtain ⟨ext, hbytes, hext⟩ := f.bytes_eq
  refine ⟨f.firstByte :: f.secondByte :: ext, hbytes, ?_⟩
  rw [hext, hdrLength]
  split <;> rfl

theorem length_bytes : f.bytes.length = f.hdrLength + 4 + f.payload.length := by
  obtain ⟨head, hbytes, hhead⟩ := f.bytes_split
  rw [hbytes, List.length_append, List.length_append, hhead, f.mask_length, length_unmask,
    Nat.add_assoc]

theorem two_le_hdrLength : 2 ≤ f.hdrLength := by
  unfold hdrLength
  split <;> omega

theorem opcode_firstByte : (f.firstByte &&& 0x0f).setWidth 32 = f.kind.opcode.setWidth 32 := by
  unfold firstByte
  cases f.fin <;> cases f.kind <;> decide

/-- The two parts of the second byte. -/
theorem secondByte_parts :
    (f.secondByte &&& 0x7f).toNat = f.code ∧ f.secondByte &&& 0x80 ≠ 0 := by
  have hparts : ∀ n < 127, ((0x80 ||| BitVec.ofNat 8 n : Byte) &&& 0x7f).toNat = n ∧
      (0x80 ||| BitVec.ofNat 8 n : Byte) &&& 0x80 ≠ 0 := by decide
  exact hparts f.code f.code_lt

end ClientFrame

/-! ## What is read from the header -/

section Header

variable {f : ClientFrame} {mem : List Byte}

/-- The first bytes in memory are those of the frame. -/
def StartsLike (n : ℕ) (mem : List Byte) (f : ClientFrame) : Prop :=
  ∀ i < n, mem.getD i 0 = f.bytes.getD i 0

theorem startsLike_of_isPrefix {buf : List Byte} (h : buf <+: f.bytes) (stale : List Byte) :
    StartsLike buf.length (buf ++ stale) f := by
  obtain ⟨rest, hrest⟩ := h
  intro i hi
  rw [← hrest, List.getD_append _ _ _ _ hi, List.getD_append _ _ _ _ hi]

theorem startsLike_append (f : ClientFrame) (more : List Byte) :
    StartsLike f.bytes.length (f.bytes ++ more) f :=
  fun _ hi => List.getD_append _ _ _ _ hi

theorem StartsLike.mono {m n : ℕ} (h : StartsLike n mem f) (hmn : m ≤ n) : StartsLike m mem f :=
  fun i hi => h i (by omega)

theorem getD_zero : f.bytes.getD 0 0 = f.firstByte := by
  obtain ⟨ext, hbytes, -⟩ := f.bytes_eq
  rw [hbytes]
  rfl

theorem getD_one : f.bytes.getD 1 0 = f.secondByte := by
  obtain ⟨ext, hbytes, -⟩ := f.bytes_eq
  rw [hbytes]
  rfl

/-- What two bytes are enough for. -/
structure HeaderOf (f : ClientFrame) (h : HybiHeader) : Prop where
  opcode : h.opcode = f.kind.opcode.setWidth 32
  code : h.code = f.code
  hdr_length : h.hdr_length = f.hdrLength
  masked : h.masked = true

theorem hybiHeader_two (hmem : StartsLike 2 mem f) : HeaderOf f (hybiHeader mem) := by
  obtain ⟨hcode, hmask⟩ := f.secondByte_parts
  have hzero : mem.getD 0 0 = f.firstByte := (hmem 0 (by decide)).trans getD_zero
  have hone : mem.getD 1 0 = f.secondByte := (hmem 1 (by decide)).trans getD_one
  have hshort : f.code < 126 ↔ f.payload.length ≤ 125 := by
    unfold ClientFrame.code
    split <;> omega
  constructor
  · simp only [hybiHeader, hzero, f.opcode_firstByte]
  · simp only [hybiHeader, hone, hcode]
  · simp only [hybiHeader, hone, hcode, hshort, ClientFrame.hdrLength]
  · simp only [hybiHeader, hone]
    exact decide_eq_true hmask

theorem HeaderOf.start_eq {h : HybiHeader} (hh : HeaderOf f h) : h.start = f.hdrLength + 4 := by
  rw [HybiHeader.start, hh.hdr_length, if_pos hh.masked]

/-- The length needs the whole header. -/
theorem hybiHeader_length (hmem : StartsLike f.hdrLength mem f) :
    (hybiHeader mem).payload_length = f.payload.length := by
  have hone : mem.getD 1 0 = f.secondByte :=
    (hmem 1 (by have := f.two_le_hdrLength; omega)).trans getD_one
  simp only [hybiHeader, hone, f.secondByte_parts.1]
  by_cases hlen : f.payload.length ≤ 125
  · have hcode : f.code = f.payload.length := by rw [ClientFrame.code, if_pos hlen]
    rw [hcode, if_pos (by omega)]
  · have hcode : f.code = 126 := by rw [ClientFrame.code, if_neg hlen]
    have hfour : f.hdrLength = 4 := by rw [ClientFrame.hdrLength, if_neg hlen]
    obtain ⟨ext, hbytes, hext⟩ := f.bytes_eq
    rw [if_neg hlen] at hext
    have hle := f.payload_le
    rw [hfour] at hmem
    rw [hcode, if_neg (by decide), hmem 2 (by decide), hmem 3 (by decide), hbytes, hext]
    show ((BitVec.ofNat 16 f.payload.length).extractLsb' 8 8).toNat * 256 +
      ((BitVec.ofNat 16 f.payload.length).extractLsb' 0 8).toNat = f.payload.length
    rw [BitVec.extractLsb'_toNat, BitVec.extractLsb'_toNat, BitVec.toNat_ofNat]
    omega

end Header

/-! ## The loop over the frames -/

section Decode

variable {b64_pton : List Byte → Option (List Byte)} {stale : List Byte} {turns : ℕ}
  {opcode : BitVec 32} {target : List Byte}

/-- A whole frame takes one turn. -/
theorem decodeFrames_frame (f : ClientFrame) (more : List Byte) :
    decodeFrames b64_pton stale (turns + 1) (f.bytes ++ more) opcode target =
      decodeFrames b64_pton stale turns more (f.kind.opcode.setWidth 32) (target ++ f.decoded) := by
  have hlike := startsLike_append f (more ++ stale)
  have htotal := f.length_bytes
  have htwo := f.two_le_hdrLength
  have hheader := hybiHeader_two (hlike.mono (by omega))
  have hpayload := hybiHeader_length (hlike.mono (by omega))
  obtain ⟨head, hsplit, hhead⟩ := f.bytes_split
  have hmask : ((f.bytes ++ more).drop f.hdrLength).take 4 = f.mask := by
    rw [hsplit, List.append_assoc, ← hhead, List.drop_left, List.append_assoc]
    exact List.take_left' f.mask_length
  have hbody : ((f.bytes ++ more).drop (f.hdrLength + 4)).take f.payload.length =
      unmask f.mask f.payload := by
    rw [hsplit, ← List.append_assoc, List.append_assoc, List.drop_left'
      (by rw [List.length_append, hhead, f.mask_length])]
    exact List.take_left' (length_unmask _ _)
  have hnext : (f.bytes ++ more).drop (f.hdrLength + 4 + f.payload.length) = more :=
    List.drop_left' htotal
  have hcode := f.code_lt
  have hclose : f.kind.opcode.setWidth 32 ≠ opcodeClose := by
    cases f.kind <;> decide
  rw [decodeFrames]
  dsimp only
  rw [List.append_assoc, hheader.opcode, hheader.code, hheader.start_eq, hpayload,
    hheader.hdr_length, hheader.masked, hmask, hbody, hnext, unmask_unmask,
    if_neg (by rw [List.length_append]; omega), if_neg hclose, if_neg (by omega),
    if_neg (by rw [List.length_append]; omega)]
  unfold ClientFrame.decoded
  cases hkind : f.kind with
  | binary =>
    rw [if_neg (by decide), if_pos rfl]
    by_cases hzero : f.payload.length = 0
    · rw [if_pos hzero, List.length_eq_zero_iff.mp hzero, List.append_nil]
    · rw [if_neg hzero, if_neg (by decide)]
      rfl
  | continuation => rw [if_pos (by decide), if_neg (by decide), List.append_nil]
  | ping => rw [if_pos (by decide), if_neg (by decide), List.append_nil]
  | pong => rw [if_pos (by decide), if_neg (by decide), List.append_nil]

/-- A frame that is not there as a whole is left for later. -/
theorem decodeFrames_cut {f : ClientFrame} {buf : List Byte} (hbuf : buf <+: f.bytes)
    (htwo : 2 ≤ buf.length) (hlt : buf.length < f.bytes.length) :
    decodeFrames b64_pton stale (turns + 1) buf opcode target =
      .done target (f.kind.opcode.setWidth 32) buf.length := by
  have hlike := startsLike_of_isPrefix hbuf stale
  have hheader := hybiHeader_two (hlike.mono htwo)
  have htotal := f.length_bytes
  have hclose : f.kind.opcode.setWidth 32 ≠ opcodeClose := by
    cases f.kind <;> decide
  have hcode := f.code_lt
  -- if the length has not arrived, the mask has not either
  have hmissing : (hybiHeader (buf ++ stale)).start + (hybiHeader (buf ++ stale)).payload_length >
      buf.length := by
    rw [hheader.start_eq]
    by_cases hhdr : f.hdrLength ≤ buf.length
    · rw [hybiHeader_length (hlike.mono hhdr)]
      omega
    · omega
  rw [decodeFrames]
  dsimp only
  rw [hheader.opcode, hheader.code, if_neg (by omega), if_neg hclose, if_neg (by omega),
    if_pos hmissing]

theorem decodeFrames_short {buf : List Byte} (h : buf.length < 2) :
    decodeFrames b64_pton stale (turns + 1) buf opcode target =
      .done target opcode buf.length := by
  rw [decodeFrames]
  exact if_pos h

/-- The close frame ends the loop, whatever follows its first byte. -/
theorem decodeFrames_close {buf : List Byte} (hbuf : buf.head? = some 0x88)
    (htwo : 2 ≤ buf.length) :
    decodeFrames b64_pton stale (turns + 1) buf opcode target =
      .done target opcodeClose buf.length := by
  obtain ⟨rest, rfl⟩ := List.head?_eq_some_iff.mp hbuf
  have hop : (hybiHeader (0x88 :: rest ++ stale)).opcode = opcodeClose := by
    simp only [hybiHeader, List.cons_append, List.getD_cons_zero]
    decide
  rw [decodeFrames]
  dsimp only
  rw [if_neg (by omega), hop, if_pos rfl]

/-- Two ways in which a buffer can be the start of a stream. -/
theorem frame_cases {f : ClientFrame} {buf wire more : List Byte}
    (h : buf ++ wire = f.bytes ++ more) :
    (∃ buf', buf = f.bytes ++ buf' ∧ buf' ++ wire = more) ∨
      (buf <+: f.bytes ∧ buf.length < f.bytes.length) := by
  rcases List.append_eq_append_iff.mp h with ⟨rest, hf, hwire⟩ | ⟨rest, hbuf, hmore⟩
  · by_cases hrest : rest = []
    · subst hrest
      rw [List.append_nil] at hf
      exact Or.inl ⟨[], by rw [hf, List.append_nil], hwire⟩
    · refine Or.inr ⟨⟨rest, hf.symm⟩, ?_⟩
      have hpos := List.length_pos_of_ne_nil hrest
      rw [hf, List.length_append]
      omega
  · exact Or.inl ⟨rest, hbuf, hmore.symm⟩

variable (b64_pton stale) in
/-- **Decoding.** All frames that are there as a whole are decoded, and what is left is the
start of the next one. Induction on the frames of the stream. -/
theorem decodeFrames_stream {c : ClientStream} {wire : List Byte} :
    ∀ {rest : List ClientFrame} {buf : List Byte} {turns : ℕ} (opcode : BitVec 32)
      (target : List Byte), buf.length < turns →
      buf ++ wire = rest.flatMap ClientFrame.bytes ++ c.closeBytes →
      ∃ now later left opcode', rest = now ++ later ∧
        buf = now.flatMap ClientFrame.bytes ++ left ∧
        Incomplete ClientFrame.bytes left.length later ∧
        decodeFrames b64_pton stale turns buf opcode target =
          .done (target ++ now.flatMap ClientFrame.decoded) opcode' left.length ∧
        (opcode' = opcodeClose ↔
          later = [] ∧ 2 ≤ left.length ∨ buf.length < 2 ∧ opcode = opcodeClose)
  | _, _, 0, _, _, hturns, _ => absurd hturns (Nat.not_lt_zero _)
  | [], buf, turns + 1, opcode, target, _, hstream => by
    rw [List.flatMap_nil, List.nil_append] at hstream
    refine ⟨[], [], buf, if 2 ≤ buf.length then opcodeClose else opcode, rfl, rfl,
      fun _ h => (Option.not_mem_none _ h).elim, ?_, ?_⟩
    · rw [List.flatMap_nil, List.append_nil]
      by_cases htwo : 2 ≤ buf.length
      · rw [if_pos htwo]
        refine decodeFrames_close ?_ htwo
        obtain ⟨b, buf, rfl⟩ := List.exists_cons_of_length_pos (by omega : 0 < buf.length)
        unfold ClientStream.closeBytes at hstream
        cases hclose : c.close with
        | none =>
          rw [hclose] at hstream
          cases hstream
        | some frame =>
          rw [hclose] at hstream
          rw [(List.cons.inj hstream).1]
          rfl
      · rw [if_neg htwo]
        exact decodeFrames_short (by omega)
    · by_cases htwo : 2 ≤ buf.length
      · simp [htwo]
      · simp [htwo]
        omega
  | f :: rest, buf, turns + 1, opcode, target, hturns, hstream => by
    rw [List.flatMap_cons, List.append_assoc] at hstream
    have hne : f.kind.opcode.setWidth 32 ≠ opcodeClose := by
      cases f.kind <;> decide
    rcases frame_cases hstream with ⟨buf', rfl, hstream'⟩ | ⟨hbegin, hlt⟩
    · have hlength := f.length_bytes
      have hturns' : buf'.length < turns := by
        rw [List.length_append] at hturns
        omega
      obtain ⟨now, later, left, opcode', rfl, rfl, hincomplete, hdecode, hclose⟩ :=
        decodeFrames_stream (f.kind.opcode.setWidth 32) (target ++ f.decoded) hturns' hstream'
      refine ⟨f :: now, later, left, opcode', rfl, ?_, hincomplete, ?_, ?_⟩
      · rw [List.flatMap_cons, List.append_assoc]
      · rw [decodeFrames_frame, hdecode, List.flatMap_cons, List.append_assoc]
      · rw [hclose]
        have hlong : ¬(f.bytes ++ (now.flatMap ClientFrame.bytes ++ left)).length < 2 := by
          rw [List.length_append]
          omega
        simp only [hne, hlong, and_false, false_and]
    · -- the frame is not complete yet
      have hincomplete : Incomplete ClientFrame.bytes buf.length (f :: rest) := by
        intro g hg
        obtain rfl := Option.some.inj hg
        exact hlt
      by_cases htwo : 2 ≤ buf.length
      · refine ⟨[], f :: rest, buf, f.kind.opcode.setWidth 32, rfl, rfl, hincomplete, ?_, ?_⟩
        · rw [decodeFrames_cut hbegin htwo hlt, List.flatMap_nil, List.append_nil]
        · refine iff_of_false hne ?_
          rintro (⟨hnil, -⟩ | ⟨hshort, -⟩)
          · cases hnil
          · omega
      · refine ⟨[], f :: rest, buf, opcode, rfl, rfl, hincomplete, ?_, ?_⟩
        · rw [decodeFrames_short (by omega), List.flatMap_nil, List.append_nil]
        · simp
          omega

end Decode

/-! ## The proxy -/

section Proxy

variable {b64_pton : List Byte → Option (List Byte)} (c : ClientStream)

namespace Proxy

/-- How many bytes have been received. -/
def received (p : Proxy) : ℕ := c.bytes.length - p.wire.length

/-- What the VNC server is to have got once `n` bytes have been received. -/
def forwardable (n : ℕ) : List Byte :=
  (wholeFrames ClientFrame.bytes n c.frames).flatMap ClientFrame.data

/-- The bytes a reading gives. -/
def chunk (p : Proxy) (n : ℕ) : List Byte := (p.ws_recv n).1

/-- Reading from the client does no harm. -/
structure Harmless (p : Proxy) (n : ℕ) : Prop where
  /-- There is room in `tin_buf`. -/
  room : p.tin_buf.length < BUFSIZE - 1
  /-- Under TLS there is room for the record. -/
  record : p.tls = true → p.tin_buf.length + (p.wire.take (n + 1)).length ≤ BUFSIZE - 1
  /-- The frames that are complete now, or were before, are no continuation frames, unless
  they are empty. -/
  unfragmented : ∀ f ∈ wholeFrames ClientFrame.bytes (p.received c + (p.chunk n).length) c.frames,
    f.kind = .continuation → f.payload = []
  /-- If the close frame begins, no data end in the same bytes. -/
  close : (c.frames.flatMap ClientFrame.bytes).length + 2 ≤ p.received c + (p.chunk n).length →
    forwardable c (p.received c) = c.frames.flatMap ClientFrame.data
  /-- `opcode` does not look like that of a close frame before there is one. -/
  opcode : (p.tin_buf ++ p.chunk n).length < 2 → p.opcode ≠ opcodeClose

/-- The condition on a turn of the loop. -/
def Orderly (p : Proxy) : ProxyEvent → Prop
  | .send _ => True
  | .recv n _ => p.exit = none → p.tout_buf = [] → p.wire ≠ [] → p.Harmless c n

instance (p : Proxy) : ∀ e, Decidable (p.Orderly c e)
  | .send _ => inferInstanceAs (Decidable True)
  | .recv n _ =>
    have : Decidable (p.Harmless c n) :=
      decidable_of_iff (_ ∧ _ ∧ _ ∧ _ ∧ _)
        ⟨fun h => ⟨h.1, h.2.1, h.2.2.1, h.2.2.2.1, h.2.2.2.2⟩,
          fun h => ⟨h.room, h.record, h.unfragmented, h.close, h.opcode⟩⟩
    inferInstanceAs (Decidable (_ → _ → _ → _))

/-- `select` lets the loop do this: data are queued and the server takes some, or none are
and something has come at the socket. -/
def CanTurn (p : Proxy) : ProxyEvent → Prop
  | .send n => p.exit = none ∧ p.tout_buf ≠ [] ∧ 0 < n
  | .recv _ _ => p.exit = none ∧ p.tout_buf = [] ∧ p.wire ≠ []

/-- What holds as long as the loop goes on: the bytes of the first frames have been used. -/
structure Going (p : Proxy) (done rest : List ClientFrame) : Prop where
  frames : c.frames = done ++ rest
  stream : p.tin_buf ++ p.wire = rest.flatMap ClientFrame.bytes ++ c.closeBytes
  incomplete : Incomplete ClientFrame.bytes p.tin_buf.length rest
  out : p.sent ++ p.tout_buf = done.flatMap ClientFrame.data

/-- What the VNC server has been or will be sent is what it is to get. -/
structure Forwarded (p : Proxy) : Prop where
  out : p.sent ++ p.tout_buf = forwardable c (p.received c)
  /-- Nothing is kept where `select` does not see it. -/
  pending : p.pending = []
  state : p.exit = none ∧ (∃ done rest, p.Going c done rest) ∨ p.exit = some .closeFrame

variable {c} {p : Proxy} {done rest : List ClientFrame}

theorem Going.received_eq (h : p.Going c done rest) :
    p.received c = (done.flatMap ClientFrame.bytes).length + p.tin_buf.length := by
  have hlength := congrArg List.length h.stream
  rw [List.length_append, List.length_append] at hlength
  unfold received ClientStream.bytes
  rw [h.frames, List.flatMap_append, List.length_append, List.length_append]
  omega

theorem Going.forwardable_eq (h : p.Going c done rest) :
    forwardable c (p.received c) = done.flatMap ClientFrame.data := by
  rw [forwardable, h.received_eq, h.frames, wholeFrames_append h.incomplete]

theorem Going.forwarded (h : p.Going c done rest) (hexit : p.exit = none)
    (hpending : p.pending = []) : p.Forwarded c :=
  ⟨h.out.trans h.forwardable_eq.symm, hpending, Or.inl ⟨hexit, done, rest, h⟩⟩

theorem Going.wire_le (h : p.Going c done rest) : p.wire.length ≤ c.bytes.length := by
  have hlength := congrArg List.length h.stream
  unfold ClientStream.bytes
  rw [h.frames, List.flatMap_append]
  simp only [List.length_append] at hlength ⊢
  omega

/-- With room for the record, the two kinds of connection do not differ. -/
theorem ws_recv_eq {n : ℕ} (hpending : p.pending = []) (hok : p.Harmless c n) :
    p.ws_recv n = (p.chunk n, { p with wire := p.wire.drop (p.chunk n).length }) ∧
      p.chunk n = p.wire.take (min (n + 1) (BUFSIZE - 1 - p.tin_buf.length)) := by
  have hchunk : p.ws_recv n =
      (p.wire.take (min (n + 1) (BUFSIZE - 1 - p.tin_buf.length)),
        { p with wire := p.wire.drop (min (n + 1) (BUFSIZE - 1 - p.tin_buf.length)) }) := by
    have hrecord := hok.record
    obtain ⟨tls, wire, pending, tin_buf⟩ := p
    obtain rfl : pending = [] := hpending
    unfold ws_recv
    dsimp only at hrecord ⊢
    generalize BUFSIZE - 1 = size at hrecord ⊢
    split
    · rfl
    · next htls =>
        have hfits := hrecord (not_not.mp htls)
        rw [List.length_take] at hfits
        have hnone : (wire.take (n + 1)).drop (size - tin_buf.length) = [] :=
          List.drop_eq_nil_of_le (by rw [List.length_take]; omega)
        have hsame : min (n + 1) wire.length =
            min (min (n + 1) (size - tin_buf.length)) wire.length := by omega
        rw [if_neg (not_not.mpr rfl), hnone, List.take_take, Nat.min_comm,
          List.drop_eq_drop_iff.mpr hsame]
  have hfst : p.chunk n = p.wire.take (min (n + 1) (BUFSIZE - 1 - p.tin_buf.length)) :=
    congrArg Prod.fst hchunk
  refine ⟨?_, hfst⟩
  rw [hchunk, hfst, List.length_take, ← List.drop_eq_drop_min]

/-- A reading takes bytes from the socket, and no others. -/
theorem chunk_taken {n : ℕ} (hpending : p.pending = []) (hwire : p.wire ≠ [])
    (hok : p.Harmless c n) :
    p.chunk n ≠ [] ∧ p.chunk n ++ p.wire.drop (p.chunk n).length = p.wire := by
  obtain ⟨-, hchunk⟩ := ws_recv_eq hpending hok
  have hpos := List.length_pos_of_ne_nil hwire
  have hroom := hok.room
  rw [hchunk]
  constructor
  · apply List.ne_nil_of_length_pos
    rw [List.length_take]
    omega
  · rw [List.length_take, ← List.drop_eq_drop_min]
    exact List.take_append_drop _ _

theorem decoded_eq_data {f : ClientFrame} (h : f.kind = .continuation → f.payload = []) :
    f.decoded = f.data := by
  unfold ClientFrame.decoded ClientFrame.data
  cases hkind : f.kind with
  | binary => rfl
  | continuation =>
    rw [h hkind]
    rfl
  | ping => rfl
  | pong => rfl

/-- Reading from the client. All the frames that are complete now are taken out, or the
close frame begins and they had nothing for the server. -/
theorem receive_forwarded {n : ℕ} {stale : List Byte} (h : p.Going c done rest)
    (hexit : p.exit = none) (hpending : p.pending = []) (htout : p.tout_buf = [])
    (hwire : p.wire ≠ []) (hok : p.Harmless c n) :
    (p.receive b64_pton n stale).Forwarded c ∧
      p.received c < (p.receive b64_pton n stale).received c ∧
        (p.receive b64_pton n stale).sent = p.sent := by
  obtain ⟨hne, hchunk⟩ := chunk_taken hpending hwire hok
  have hstream : (p.tin_buf ++ p.chunk n) ++ p.wire.drop (p.chunk n).length =
      rest.flatMap ClientFrame.bytes ++ c.closeBytes := by
    rw [List.append_assoc, hchunk, h.stream]
  obtain ⟨now, later, left, opcode', rfl, hbuf, hincomplete, hdecode, hclose⟩ :=
    decodeFrames_stream b64_pton stale p.opcode []
      (Nat.lt_succ_self (p.tin_buf ++ p.chunk n).length) hstream
  have hframes : c.frames = (done ++ now) ++ later := by rw [h.frames, List.append_assoc]
  have hreceived : p.received c + (p.chunk n).length =
      ((done ++ now).flatMap ClientFrame.bytes).length + left.length := by
    have hlength := congrArg List.length hbuf
    rw [List.length_append, List.length_append] at hlength
    rw [h.received_eq, List.flatMap_append, List.length_append]
    omega
  have hwhole : wholeFrames ClientFrame.bytes (p.received c + (p.chunk n).length) c.frames =
      done ++ now := by
    rw [hreceived, hframes, wholeFrames_append hincomplete]
  have hdata : now.flatMap ClientFrame.decoded = now.flatMap ClientFrame.data := by
    refine List.flatMap_congr fun f hf => decoded_eq_data (hok.unfragmented f ?_)
    rw [hwhole]
    exact List.mem_append_right _ hf
  have hafter : c.bytes.length - (p.wire.drop (p.chunk n).length).length =
      p.received c + (p.chunk n).length := by
    have hgot := congrArg List.length hchunk
    have htotal := h.wire_le
    rw [List.length_append] at hgot
    unfold received
    omega
  have hmore : p.received c < c.bytes.length - (p.wire.drop (p.chunk n).length).length := by
    rw [hafter]
    exact Nat.lt_add_of_pos_right (List.length_pos_of_ne_nil hne)
  unfold receive
  rw [(ws_recv_eq hpending hok).1]
  dsimp only
  rw [if_neg hne, decode_hybi, hdecode]
  dsimp only
  by_cases hop : opcode' = opcodeClose
  · rw [if_pos hop]
    refine ⟨⟨?_, hpending, Or.inr rfl⟩, hmore, rfl⟩
    -- the opcode is not the one of an earlier call
    obtain ⟨rfl, htwo⟩ | ⟨hshort, hold⟩ := hclose.mp hop
    · rw [List.append_nil] at hframes
      have hall := hok.close (by rw [hreceived, hframes]; omega)
      show p.sent ++ p.tout_buf = forwardable c (c.bytes.length - (p.wire.drop _).length)
      rw [hafter, h.out, ← h.forwardable_eq, hall, forwardable, hwhole, hframes]
    · exact absurd hold (hok.opcode hshort)
  · rw [if_neg hop]
    refine ⟨Going.forwarded ⟨hframes, ?_, ?_, ?_⟩ hexit hpending, hmore, rfl⟩
    · show (p.tin_buf ++ p.chunk n).drop _ ++ _ = _
      rw [hbuf, List.length_append, Nat.add_sub_cancel, List.drop_left]
      rw [hbuf, List.flatMap_append, List.append_assoc, List.append_assoc] at hstream
      exact List.append_cancel_left hstream
    · show Incomplete ClientFrame.bytes ((p.tin_buf ++ p.chunk n).drop _).length later
      rw [hbuf, List.length_append, Nat.add_sub_cancel, List.drop_left]
      exact hincomplete
    · have hsent := h.out
      rw [htout, List.append_nil] at hsent
      rw [hsent, List.nil_append, hdata, List.flatMap_append]

/-- What a turn keeps, and that it gets on: bytes are taken from the client or given to the
server. -/
theorem step_forwarded {e : ProxyEvent} (h : p.Forwarded c) (hok : p.Orderly c e) :
    (p.step b64_pton e).Forwarded c ∧ (p.CanTurn e →
      p.received c + p.sent.length <
        (p.step b64_pton e).received c + (p.step b64_pton e).sent.length) := by
  obtain ⟨hexit, done, rest, hgoing⟩ | hexit := h.state
  · cases e with
    | send n =>
      unfold step
      dsimp only
      rw [hexit, if_neg (by decide)]
      constructor
      · refine Going.forwarded ⟨hgoing.frames, hgoing.stream, hgoing.incomplete, ?_⟩ rfl h.pending
        rw [List.append_assoc, List.take_append_drop, hgoing.out]
      · rintro ⟨-, hqueued, hn⟩
        have hpos := List.length_pos_of_ne_nil hqueued
        show p.received c + _ < p.received c + (p.sent ++ p.tout_buf.take n).length
        rw [List.length_append, List.length_take]
        omega
    | recv n stale =>
      unfold step
      dsimp only
      rw [hexit]
      split
      · next hidle =>
          refine ⟨h, fun hcan => ?_⟩
          rcases hidle with hsome | hqueued | hnone
          · cases hsome
          · exact absurd hcan.2.1 hqueued
          · exact absurd hnone hcan.2.2
      · next hread =>
          simp only [Option.isSome_none, Bool.false_eq_true, false_or, not_or, not_not] at hread
          obtain ⟨hforwarded, hmore, hsent⟩ :=
            @receive_forwarded b64_pton c p done rest n stale hgoing hexit h.pending hread.1
              hread.2 (hok hexit hread.1 hread.2)
          refine ⟨hforwarded, fun _ => ?_⟩
          rw [hsent]
          omega
  · have hstop : p.step b64_pton e = p := by
      cases e <;> simp [step, hexit]
    rw [hstop]
    refine ⟨h, fun hcan => ?_⟩
    cases e <;> cases hexit.symm.trans hcan.1

/-- So there are no more turns than bytes to take and to give. -/
theorem turns_le : ∀ {es : List ProxyEvent} {p : Proxy}, p.Forwarded c →
    Guarded (step b64_pton) (Orderly c) p es → Guarded (step b64_pton) CanTurn p es →
    es.length + (p.received c + p.sent.length) ≤
      (run (step b64_pton) p es).received c + (run (step b64_pton) p es).sent.length
  | [], _, _, _, _ => Nat.le_of_eq (Nat.zero_add _)
  | e :: es, p, h, hok, hcan => by
    obtain ⟨hforwarded, hmore⟩ := @step_forwarded b64_pton c p e h hok.1
    have hrest := turns_le hforwarded hok.2 hcan.2
    have hstep := hmore hcan.1
    rw [List.length_cons, run_cons]
    omega

/-- Where no turn is possible, everything has been handed on. -/
theorem Forwarded.at_rest (h : p.Forwarded c) (hrest : ∀ e, ¬p.CanTurn e) :
    p.exit = some .closeFrame ∨ p.sent = c.frames.flatMap ClientFrame.data := by
  obtain ⟨hexit, done, rest, hgoing⟩ | hexit := h.state
  · refine Or.inr ?_
    have hqueued : p.tout_buf = [] := by
      by_contra hqueued
      exact hrest (.send 1) ⟨hexit, hqueued, Nat.one_pos⟩
    have hwire : p.wire = [] := by
      by_contra hwire
      exact hrest (.recv 0 []) ⟨hexit, hqueued, hwire⟩
    have hnone : rest = [] := by
      cases rest with
      | nil => rfl
      | cons f rest =>
        have hlength := congrArg List.length hgoing.stream
        have hlt : p.tin_buf.length < f.bytes.length := hgoing.incomplete f rfl
        rw [hwire, List.append_nil, List.flatMap_cons] at hlength
        simp only [List.length_append] at hlength
        omega
    have hout := hgoing.out
    rw [hqueued, List.append_nil] at hout
    rw [hout, hgoing.frames, hnone, List.append_nil]
  · exact Or.inl hexit

theorem init_forwarded (c : ClientStream) (tls : Bool) (opcode : BitVec 32) :
    Forwarded c { tls, wire := c.bytes, opcode } := by
  have hgoing : Going c { tls, wire := c.bytes, opcode } [] c.frames := by
    refine ⟨rfl, rfl, fun f _ => ?_, rfl⟩
    have hlength := f.length_bytes
    show 0 < f.bytes.length
    omega
  exact hgoing.forwarded rfl rfl

end Proxy

/-- **Nothing is lost** in whatever pieces the frames arrive, as long as every reading from
the client is harmless: what `do_proxy` has handed on or is about to is the data of all
frames that have arrived as a whole, and it ends with the close frame only. It does not
stall: each possible turn takes a byte or hands one on, and where none is possible all the
data have been sent. -/
theorem do_proxy_forwards (c : ClientStream) (tls : Bool) (opcode : BitVec 32)
    (es : List ProxyEvent)
    (hok : Guarded (Proxy.step b64_pton) (Proxy.Orderly c) { tls, wire := c.bytes, opcode } es) :
    let p := run (Proxy.step b64_pton) { tls, wire := c.bytes, opcode } es
    (p.sent ++ p.tout_buf =
        (wholeFrames ClientFrame.bytes (c.bytes.length - p.wire.length) c.frames).flatMap
          ClientFrame.data ∧
      p.pending = [] ∧ (p.exit = none ∨ p.exit = some .closeFrame)) ∧
      (Guarded (Proxy.step b64_pton) Proxy.CanTurn { tls, wire := c.bytes, opcode } es →
        es.length ≤ (c.bytes.length - p.wire.length) + p.sent.length) ∧
      ((∀ e, ¬p.CanTurn e) →
        p.exit = some .closeFrame ∨ p.sent = c.frames.flatMap ClientFrame.data) := by
  have hinit := Proxy.init_forwarded c tls opcode
  have h := run_invariant (I := Proxy.Forwarded c) (fun _ _ h he => (Proxy.step_forwarded h he).1)
    hinit hok
  refine ⟨⟨h.out, h.pending, h.state.imp And.left id⟩, fun hcan => ?_, h.at_rest⟩
  exact Nat.le_trans (Nat.le_add_right _ _) (Proxy.turns_le hinit hok hcan)

end Proxy

/-- Data, a ping and a close frame, in pieces that end inside of the frames. -/
def shortStream : ClientStream where
  frames := [{ kind := .binary, mask := [1, 2, 3, 4], payload := [7] },
    { kind := .ping, mask := [5, 6, 7, 8], payload := [] }]
  close := some { rest := [0x80] }

/-- The pieces are records of TLS. -/
theorem do_proxy_forwards_shortStream :
    let p := run (Proxy.step fun _ => none) { tls := true, wire := shortStream.bytes, opcode := 0 }
      [.recv 3 [], .recv 3 [0], .send 1, .recv 9 []]
    p.sent = [7] ∧ p.pending = [] ∧ p.exit = some .closeFrame := by
  have h := @do_proxy_forwards (fun _ => none) shortStream true 0
    [.recv 3 [], .recv 3 [0], .send 1, .recv 9 []] (by decide)
  exact ⟨by decide, h.1.2.1, h.1.2.2.resolve_left (by decide)⟩

/-- A message in two frames. -/
def fragments : ClientStream where
  frames := [{ kind := .binary, fin := false, mask := [1, 2, 3, 4], payload := [8] },
    { kind := .continuation, mask := [5, 6, 7, 8], payload := [9] }]

/-- The second frame of a message is left out. -/
theorem do_proxy_loses_fragments :
    let p := run (Proxy.step fun _ => none) { tls := false, wire := fragments.bytes, opcode := 0 }
      [.recv 99 [], .send 1]
    p.wire = [] ∧ p.tin_buf = [] ∧ p.tout_buf = [] ∧ p.exit = none ∧ p.sent = [8] ∧
      fragments.frames.flatMap ClientFrame.data = [8, 9] := by
  decide

end KasmVNC.Network
